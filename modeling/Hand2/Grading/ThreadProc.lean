import Mathlib.Logic.Function.Basic
import Hand2.Library.Runs
import Hand2.Scores.Grade

/-!
# `Grading.ThreadProc` — the threads that run the works

`linux_thread_proc` and `win32_thread_proc` are one loop: read the counter, leave if every work is taken, else
try to move the counter on by one and run the work it stood at. A thread acts on its own copy of the counter, so
a step is a read of the counter, a compare and swap, or the end of a run, and the steps of all threads are
interleaved in any order. Every index is taken at most once because the counter only ever moves from `n` to
`n + 1` (`ThreadInv`), and none is passed over.
-/

namespace Hand2

/-- `Work`, with what is read by the run itself beside what is read after it. -/
structure RunWork extends Work where
  command : CString

/-- Where a thread is in its loop. -/
inductive ThreadState where
  /-- Before `next_to_work = *context->next_to_work`. -/
  | reading
  /-- Before the compare and swap, with its copy of the counter. -/
  | swapping (nextToWork : Int)
  /-- In the run of a work. -/
  | running (index : Int)
  /-- After the loop. -/
  | left
  deriving DecidableEq

/-- What the threads `τ` share, and where each of them is. -/
structure Threads (τ : Type) where
  nextToWork : Int
  works : Int → RunWork
  thread : τ → ThreadState

/-- When the threads are created. -/
def Threads.start {τ : Type} (works : Int → RunWork) : Threads τ := ⟨0, works, fun _ => .reading⟩

/-- A step of a thread; `ρ` is what the system makes of a run. -/
inductive ThreadEvent (τ ρ : Type) where
  | read (t : τ)
  /-- The compare and swap succeeds, and the run of work `index` starts. -/
  | claim (t : τ) (index : Int)
  /-- The compare and swap fails. -/
  | miss (t : τ)
  /-- The run of work `index` ends. -/
  | finish (t : τ) (index : Int) (result : ρ)
  deriving DecidableEq

section Step

variable {τ ρ : Type} [DecidableEq τ]

/-- Thread `t` goes on at `p`. -/
def Threads.goto (s : Threads τ) (t : τ) (p : ThreadState) : Threads τ :=
  { s with thread := Function.update s.thread t p }

/-- The loop of a thread, `execWork` being its call of `linux_exec_process` or `win32_exec_process`. -/
def threadProc (execWork : Int → RunWork → ρ → Int) (workCount : Int) (s : Threads τ) :
    ThreadEvent τ ρ → Option (Threads τ)
  | .read t =>
      -- the loop is left at `!=`, not at `<`: the counter must not pass the end
      if s.thread t = .reading then
        some (s.goto t (if s.nextToWork ≠ workCount then .swapping s.nextToWork else .left))
      else none
  | .claim t index =>
      if s.thread t = .swapping index ∧ s.nextToWork = index then
        some { s.goto t (.running index) with nextToWork := index + 1 }
      else none
  | .miss t =>
      match s.thread t with
      | .swapping nextToWork => if s.nextToWork ≠ nextToWork then some (s.goto t .reading) else none
      | _                    => none
  | .finish t index result =>
      if s.thread t = .running index then
        some { s.goto t .reading with
          works := Function.update s.works index
            { s.works index with exitCode := execWork index (s.works index) result } }
      else none

/-- `s[0] ? s : 0`. -/
def nonEmpty (s : CString) : Option CString := if s.bytes = [] then none else some s

/-- `linux_thread_proc`. -/
def linuxThreadProc (linuxExecProcess : Int → Option CString → Option CString → ρ → Int) (workCount : Int) :
    Threads τ → ThreadEvent τ ρ → Option (Threads τ) :=
  threadProc (fun index work result => linuxExecProcess index (nonEmpty work.command) (nonEmpty work.workDir) result)
    workCount

/-- `win32_thread_proc`: the command is passed on even if it is empty. -/
def win32ThreadProc (win32ExecProcess : Int → CString → Option CString → ρ → Int) (workCount : Int) :
    Threads τ → ThreadEvent τ ρ → Option (Threads τ) :=
  threadProc (fun index work result => win32ExecProcess index work.command (nonEmpty work.workDir) result) workCount

end Step

/-! ## What a step does -/

section Cases

variable {τ ρ : Type} [DecidableEq τ] {execWork : Int → RunWork → ρ → Int} {workCount : Int} {s s' : Threads τ}

@[simp] theorem Threads.goto_nextToWork (t : τ) (p : ThreadState) : (s.goto t p).nextToWork = s.nextToWork := rfl

@[simp] theorem Threads.goto_works (t : τ) (p : ThreadState) : (s.goto t p).works = s.works := rfl

@[simp] theorem Threads.goto_thread (t : τ) (p : ThreadState) :
    (s.goto t p).thread = Function.update s.thread t p := rfl

/-- A thread that reads the counter: on to the compare and swap, or out of the loop. -/
theorem read_cases {t : τ} (h : threadProc execWork workCount s (.read t) = some s') :
    s.thread t = .reading ∧
      ((s.nextToWork ≠ workCount ∧ s' = s.goto t (.swapping s.nextToWork))
        ∨ (s.nextToWork = workCount ∧ s' = s.goto t .left)) := by
  simp only [threadProc] at h
  split at h
  · next hreading =>
      injection h with h
      subst h
      apply And.intro hreading
      by_cases hnext : s.nextToWork = workCount
      · exact .inr ⟨hnext, by simp [hnext]⟩
      · exact .inl ⟨hnext, by simp [hnext]⟩
  · cases h

/-- A thread that takes a work: the counter stood at its index, and moves on. -/
theorem claim_cases {t : τ} {index : Int} (h : threadProc execWork workCount s (.claim t index) = some s') :
    s.thread t = .swapping index ∧ s.nextToWork = index
      ∧ s' = { s.goto t (.running index) with nextToWork := index + 1 } := by
  simp only [threadProc] at h
  split at h
  · next hguard =>
      injection h with h
      exact ⟨hguard.1, hguard.2, h.symm⟩
  · cases h

/-- A thread that was too late starts its loop again. -/
theorem miss_cases {t : τ} (h : threadProc execWork workCount s (.miss t) = some s') :
    (∃ n, s.thread t = .swapping n) ∧ s' = s.goto t .reading := by
  simp only [threadProc] at h
  split at h
  · next n hswapping =>
      split at h
      · injection h with h
        exact ⟨⟨n, hswapping⟩, h.symm⟩
      · cases h
  · cases h

/-- A run that ends: the exit code is stored in its own work. -/
theorem finish_cases {t : τ} {index : Int} {result : ρ}
    (h : threadProc execWork workCount s (.finish t index result) = some s') :
    s.thread t = .running index
      ∧ s' = { s.goto t .reading with
          works := Function.update s.works index
            { s.works index with exitCode := execWork index (s.works index) result } } := by
  simp only [threadProc] at h
  split at h
  · next hrunning =>
      injection h with h
      exact ⟨hrunning, h.symm⟩
  · cases h

end Cases

/-! ## What holds at every step -/

section History

variable {τ ρ : Type}

/-- The work an event is about. -/
def ThreadEvent.index : ThreadEvent τ ρ → Option Int
  | .read _        => none
  | .claim _ n     => some n
  | .miss _        => none
  | .finish _ n _  => some n

/-- The event starts the run of work `n`. -/
def ThreadEvent.starts (n : Int) : ThreadEvent τ ρ → Bool
  | .claim _ m => m == n
  | _          => false

/-- The events about work `n`. -/
def history (n : Int) (es : List (ThreadEvent τ ρ)) : List (ThreadEvent τ ρ) :=
  es.filter (fun e => decide (e.index = some n))

theorem history_concat_of_ne {n : Int} {es : List (ThreadEvent τ ρ)} {e : ThreadEvent τ ρ}
    (h : e.index ≠ some n) : history n (es ++ [e]) = history n es := by
  simp [history, h]

theorem history_concat {n : Int} {es : List (ThreadEvent τ ρ)} {e : ThreadEvent τ ρ} (h : e.index = some n) :
    history n (es ++ [e]) = history n es ++ [e] := by
  simp [history, h]

/-- The starts of a work are in its history. -/
theorem countP_starts (n : Int) (es : List (ThreadEvent τ ρ)) :
    es.countP (ThreadEvent.starts n) = (history n es).countP (ThreadEvent.starts n) := by
  rw [history, List.countP_filter]
  congr 1
  funext e
  cases e <;> simp [ThreadEvent.starts, ThreadEvent.index]

end History

section Invariant

variable {τ ρ : Type} [DecidableEq τ] (execWork : Int → RunWork → ρ → Int) (workCount : Int)
  (works : Int → RunWork)

/-- The work once its run has ended. -/
def finished (n : Int) (result : ρ) : RunWork := { works n with exitCode := execWork n (works n) result }

/-- How far work `n` is: not taken, in the run of one thread, or done by one. -/
inductive Phase (es : List (ThreadEvent τ ρ)) (s : Threads τ) (n : Int) : Prop where
  | waiting (hnext : n < 0 ∨ s.nextToWork ≤ n) (hhistory : history n es = [])
      (hidle : ∀ t, s.thread t ≠ .running n) (hwork : s.works n = works n)
  | running (t : τ) (h0 : 0 ≤ n) (hnext : n < s.nextToWork) (hhistory : history n es = [.claim t n])
      (honly : ∀ t', s.thread t' = .running n → t' = t) (hthread : s.thread t = .running n)
      (hwork : s.works n = works n)
  | done (t : τ) (result : ρ) (h0 : 0 ≤ n) (hnext : n < s.nextToWork)
      (hhistory : history n es = [.claim t n, .finish t n result])
      (hidle : ∀ t', s.thread t' ≠ .running n) (hwork : s.works n = finished execWork works n result)

/-- What holds of the threads whatever the order of their steps. -/
structure ThreadInv (es : List (ThreadEvent τ ρ)) (s : Threads τ) : Prop where
  next_nonneg : 0 ≤ s.nextToWork
  next_le : s.nextToWork ≤ workCount
  /-- A copy of the counter may be old, but was below the end. -/
  swapping_lt : ∀ t n, s.thread t = .swapping n → n < workCount
  /-- The counter stays at the end once a thread has seen it there. -/
  left_end : ∀ t, s.thread t = .left → s.nextToWork = workCount
  phase : ∀ n, Phase execWork works es s n

variable {execWork workCount works} {es : List (ThreadEvent τ ρ)} {s s' : Threads τ}

omit [DecidableEq τ] in
theorem ThreadInv.start (hcount : 0 ≤ workCount) :
    ThreadInv execWork workCount works ([] : List (ThreadEvent τ ρ)) (Threads.start works) where
  next_nonneg := Int.le_refl 0
  next_le := hcount
  swapping_lt := by
    intro t n h
    cases h
  left_end := by
    intro t h
    cases h
  phase := by
    intro n
    refine .waiting ?_ rfl ?_ rfl
    · show n < 0 ∨ 0 ≤ n
      omega
    · intro t h
      cases h

/-- A step of `t` that is no run's start or end leaves every work where it is. -/
theorem Phase.goto {e : ThreadEvent τ ρ} {t : τ} {p : ThreadState} (hindex : e.index = none)
    (hbefore : ∀ n, s.thread t ≠ .running n) (hafter : ∀ n, p ≠ .running n) {n : Int}
    (h : Phase execWork works es s n) : Phase execWork works (es ++ [e]) (s.goto t p) n := by
  have hhistory : history n (es ++ [e]) = history n es := history_concat_of_ne (by rw [hindex]; simp)
  have hthread : ∀ t', (s.goto t p).thread t' = .running n ↔ s.thread t' = .running n := by
    intro t'
    by_cases ht : t' = t
    · subst ht
      simp [hafter n, hbefore n]
    · simp [Function.update_of_ne ht]
  cases h with
  | waiting hnext hh hidle hwork =>
      exact .waiting hnext (hhistory.trans hh) (fun t' h => hidle t' ((hthread t').mp h)) hwork
  | running u h0 hnext hh honly hrun hwork =>
      exact .running u h0 hnext (hhistory.trans hh) (fun t' h => honly t' ((hthread t').mp h))
        ((hthread u).mpr hrun) hwork
  | done u result h0 hnext hh hidle hwork =>
      exact .done u result h0 hnext (hhistory.trans hh) (fun t' h => hidle t' ((hthread t').mp h)) hwork

/-- The thread that takes work `m` leaves every other work where it is. -/
theorem Phase.claim_other {t : τ} {m n : Int} (hswapping : s.thread t = .swapping m) (hnext : s.nextToWork = m)
    (hne : n ≠ m) (h : Phase execWork works es s n) :
    Phase execWork works (es ++ [.claim t m]) { s.goto t (.running m) with nextToWork := m + 1 } n := by
  have hhistory : history n (es ++ [.claim t m]) = history n es :=
    history_concat_of_ne (by simpa [ThreadEvent.index] using fun h => hne h.symm)
  have hthread : ∀ t', (s.goto t (.running m)).thread t' = .running n ↔ s.thread t' = .running n := by
    intro t'
    by_cases ht : t' = t
    · subst ht
      simp [hswapping, hne.symm]
    · simp [Function.update_of_ne ht]
  cases h with
  | waiting hout hh hidle hwork =>
      refine .waiting ?_ (hhistory.trans hh) (fun t' h => hidle t' ((hthread t').mp h)) hwork
      show n < 0 ∨ m + 1 ≤ n
      omega
  | running u h0 hin hh honly hrun hwork =>
      refine .running u h0 ?_ (hhistory.trans hh) (fun t' h => honly t' ((hthread t').mp h))
        ((hthread u).mpr hrun) hwork
      show n < m + 1
      omega
  | done u result h0 hin hh hidle hwork =>
      refine .done u result h0 ?_ (hhistory.trans hh) (fun t' h => hidle t' ((hthread t').mp h)) hwork
      show n < m + 1
      omega

/-- The work the counter stands at was not taken; now it is, by one thread. -/
theorem Phase.claim_self {t : τ} {m : Int} (h0 : 0 ≤ m) (hnext : s.nextToWork = m)
    (h : Phase execWork works es s m) :
    Phase execWork works (es ++ [.claim t m]) { s.goto t (.running m) with nextToWork := m + 1 } m := by
  cases h with
  | waiting _ hh hidle hwork =>
      refine .running t h0 ?_ ?_ ?_ ?_ hwork
      · show m < m + 1
        omega
      · rw [history_concat rfl, hh]
        rfl
      · intro t' hrun
        by_contra ht
        apply hidle t'
        simpa [Function.update_of_ne ht] using hrun
      · simp
  | running u _ hin _ _ _ _ => omega
  | done u result _ hin _ _ _ => omega

/-- The thread whose run of `m` ends leaves every other work where it is. -/
theorem Phase.finish_other {t : τ} {m n : Int} {result : ρ} {w : RunWork} (hrunning : s.thread t = .running m)
    (hne : n ≠ m) (h : Phase execWork works es s n) :
    Phase execWork works (es ++ [.finish t m result])
      { s.goto t .reading with works := Function.update s.works m w } n := by
  have hhistory : history n (es ++ [.finish t m result]) = history n es :=
    history_concat_of_ne (by simpa [ThreadEvent.index] using fun h => hne h.symm)
  have hsame : Function.update s.works m w n = s.works n := Function.update_of_ne hne _ _
  have hthread : ∀ t', (s.goto t .reading).thread t' = .running n ↔ s.thread t' = .running n := by
    intro t'
    by_cases ht : t' = t
    · subst ht
      simp [hrunning, hne.symm]
    · simp [Function.update_of_ne ht]
  cases h with
  | waiting hout hh hidle hwork =>
      exact .waiting hout (hhistory.trans hh) (fun t' h => hidle t' ((hthread t').mp h)) (hsame.trans hwork)
  | running u h0 hin hh honly hrun hwork =>
      exact .running u h0 hin (hhistory.trans hh) (fun t' h => honly t' ((hthread t').mp h))
        ((hthread u).mpr hrun) (hsame.trans hwork)
  | done u r h0 hin hh hidle hwork =>
      exact .done u r h0 hin (hhistory.trans hh) (fun t' h => hidle t' ((hthread t').mp h)) (hsame.trans hwork)

/-- The run of a work ends in the thread that took it. -/
theorem Phase.finish_self {t : τ} {m : Int} {result : ρ} (hrunning : s.thread t = .running m)
    (h : Phase execWork works es s m) :
    Phase execWork works (es ++ [.finish t m result])
      { s.goto t .reading with
        works := Function.update s.works m { s.works m with exitCode := execWork m (s.works m) result } } m := by
  cases h with
  | waiting _ _ hidle _ => exact absurd hrunning (hidle t)
  | running u h0 hin hh honly _ hwork =>
      obtain rfl : t = u := honly t hrunning
      refine .done t result h0 hin ?_ ?_ ?_
      · rw [history_concat rfl, hh]
        rfl
      · intro t' hrun
        by_cases ht : t' = t
        · subst ht
          simp at hrun
        · apply ht
          apply honly
          simpa [Function.update_of_ne ht] using hrun
      · simp [hwork, finished]
  | done u r _ _ _ hidle _ => exact absurd hrunning (hidle t)

/-- A thread that only moves on keeps the invariant, if it is where it may be. -/
theorem ThreadInv.goto {e : ThreadEvent τ ρ} {t : τ} {p : ThreadState} (hindex : e.index = none)
    (hbefore : ∀ n, s.thread t ≠ .running n) (hafter : ∀ n, p ≠ .running n)
    (hswapping : ∀ n, p = .swapping n → n < workCount) (hleft : p = .left → s.nextToWork = workCount)
    (h : ThreadInv execWork workCount works es s) :
    ThreadInv execWork workCount works (es ++ [e]) (s.goto t p) where
  next_nonneg := h.next_nonneg
  next_le := h.next_le
  swapping_lt := by
    intro t' n ht'
    by_cases ht : t' = t
    · subst ht
      exact hswapping n (by simpa using ht')
    · exact h.swapping_lt t' n (by simpa [Function.update_of_ne ht] using ht')
  left_end := by
    intro t' ht'
    by_cases ht : t' = t
    · subst ht
      exact hleft (by simpa using ht')
    · exact h.left_end t' (by simpa [Function.update_of_ne ht] using ht')
  phase := fun n => (h.phase n).goto hindex hbefore hafter

/-- **Step lemma.** -/
theorem ThreadInv.step {e : ThreadEvent τ ρ} (h : ThreadInv execWork workCount works es s)
    (hstep : threadProc execWork workCount s e = some s') : ThreadInv execWork workCount works (es ++ [e]) s' := by
  cases e with
  | read t =>
      obtain ⟨hreading, ⟨hnext, rfl⟩ | ⟨hnext, rfl⟩⟩ := read_cases hstep
      · refine h.goto rfl (by simp [hreading]) (by simp) ?_ (by simp)
        intro n hn
        injection hn with hn
        have := h.next_le
        omega
      · exact h.goto rfl (by simp [hreading]) (by simp) (by simp) (fun _ => hnext)
  | claim t m =>
      obtain ⟨hswapping, hnext, rfl⟩ := claim_cases hstep
      have hlt := h.swapping_lt t m hswapping
      have h0 := h.next_nonneg
      -- the counter was below the end, so no thread has left
      have hin : ∀ t', s.thread t' ≠ .left := by
        intro t' hleft
        have := h.left_end t' hleft
        omega
      refine ⟨?_, ?_, ?_, ?_, ?_⟩
      · show 0 ≤ m + 1
        omega
      · show m + 1 ≤ workCount
        omega
      · intro t' n ht'
        by_cases ht : t' = t
        · subst ht
          simp at ht'
        · exact h.swapping_lt t' n (by simpa [Function.update_of_ne ht] using ht')
      -- nor has this one, which runs its work now
      · intro t' ht'
        by_cases ht : t' = t
        · subst ht
          simp at ht'
        · exact absurd (by simpa [Function.update_of_ne ht] using ht') (hin t')
      · intro n
        by_cases hn : n = m
        · subst hn
          exact (h.phase n).claim_self (by omega) hnext
        · exact (h.phase n).claim_other hswapping hnext hn
  | miss t =>
      obtain ⟨⟨n, hswapping⟩, rfl⟩ := miss_cases hstep
      exact h.goto rfl (by simp [hswapping]) (by simp) (by simp) (by simp)
  | finish t m result =>
      obtain ⟨hrunning, rfl⟩ := finish_cases hstep
      refine ⟨h.next_nonneg, h.next_le, ?_, ?_, ?_⟩
      · intro t' n ht'
        by_cases ht : t' = t
        · subst ht
          simp at ht'
        · exact h.swapping_lt t' n (by simpa [Function.update_of_ne ht] using ht')
      · intro t' ht'
        by_cases ht : t' = t
        · subst ht
          simp at ht'
        · exact h.left_end t' (by simpa [Function.update_of_ne ht] using ht')
      · intro n
        by_cases hn : n = m
        · subst hn
          exact (h.phase n).finish_self hrunning
        · exact (h.phase n).finish_other hrunning hn

/-- **Run lemma.** -/
theorem threadInv_run (hcount : 0 ≤ workCount)
    (hrun : Machine.Run (threadProc execWork workCount) (Threads.start works) es s) :
    ThreadInv execWork workCount works es s :=
  hrun.invariant _ (ThreadInv.start hcount) (fun _ _ _ _ h hstep => h.step hstep)

end Invariant

/-! ## Every work is run exactly once -/

section Once

variable {τ ρ : Type} [DecidableEq τ] {execWork : Int → RunWork → ρ → Int} {workCount : Int}
  {works : Int → RunWork} {es : List (ThreadEvent τ ρ)} {s : Threads τ}

omit [DecidableEq τ] in
/-- No work is started twice, in one thread or in two. -/
theorem ThreadInv.starts_le_one (h : ThreadInv execWork workCount works es s) (n : Int) :
    es.countP (ThreadEvent.starts n) ≤ 1 := by
  rw [countP_starts]
  cases h.phase n with
  | waiting _ hh _ _       => simp [hh]
  | running _ _ _ hh _ _ _ => simp [hh, ThreadEvent.starts]
  | done _ _ _ _ hh _ _    => simp [hh, ThreadEvent.starts]

omit [DecidableEq τ] in
/-- A work an event is about is one of the array. -/
theorem ThreadInv.index_bounds (h : ThreadInv execWork workCount works es s) {e : ThreadEvent τ ρ} (he : e ∈ es)
    {n : Int} (hn : e.index = some n) : 0 ≤ n ∧ n < workCount := by
  have hmem : e ∈ history n es := List.mem_filter.mpr ⟨he, decide_eq_true hn⟩
  have hle := h.next_le
  cases h.phase n with
  | waiting _ hh _ _ =>
      rw [hh] at hmem
      exact absurd hmem List.not_mem_nil
  | running _ h0 hnext _ _ _ _ => omega
  | done _ _ h0 hnext _ _ _ => omega

omit [DecidableEq τ] in
/-- Once all threads have left, every work was taken and run, by one thread. -/
theorem ThreadInv.all_done [Nonempty τ] (h : ThreadInv execWork workCount works es s)
    (hleft : ∀ t, s.thread t = .left) {n : Int} (h0 : 0 ≤ n) (hn : n < workCount) :
    ∃ t result, history n es = [.claim t n, .finish t n result]
      ∧ s.works n = finished execWork works n result := by
  -- one thread is enough to have seen the counter at the end
  have hend : s.nextToWork = workCount := h.left_end (Classical.arbitrary τ) (hleft _)
  cases h.phase n with
  | waiting hout _ _ _ => omega
  | running t _ _ _ _ hrun _ =>
      rw [hleft t] at hrun
      cases hrun
  | done t result _ _ hh _ hwork => exact ⟨t, result, hh, hwork⟩

end Once

/-- **The parallel grader runs every work exactly once**, whatever the order of the steps of its threads: the
    counter stays in the array, no work is started twice, every work started is one of the array, a thread has
    left only if the counter is at the end, and once all of them have, every work was started and ended in one
    thread and has its own exit code. -/
theorem threadProc_exactly_once {ρ : Type} (execWork : Int → RunWork → ρ → Int) (works : Int → RunWork)
    {threads : Nat} {workCount : Int} (hthreads : 1 ≤ threads) (hcount : 0 ≤ workCount)
    {es : List (ThreadEvent (Fin threads) ρ)} {s : Threads (Fin threads)}
    (hrun : Machine.Run (threadProc execWork workCount) (Threads.start works) es s) :
    (0 ≤ s.nextToWork ∧ s.nextToWork ≤ workCount)
      ∧ (∀ n, es.countP (ThreadEvent.starts n) ≤ 1)
      ∧ (∀ e ∈ es, ∀ n, e.index = some n → 0 ≤ n ∧ n < workCount)
      ∧ (∀ t, s.thread t = .left → s.nextToWork = workCount)
      ∧ ((∀ t, s.thread t = .left) → ∀ n, 0 ≤ n → n < workCount →
          ∃ t result, history n es = [.claim t n, .finish t n result]
            ∧ s.works n = finished execWork works n result) := by
  have hinv := threadInv_run hcount hrun
  have : Nonempty (Fin threads) := ⟨⟨0, hthreads⟩⟩
  refine ⟨⟨hinv.next_nonneg, hinv.next_le⟩, hinv.starts_le_one, ?_, hinv.left_end, ?_⟩
  · intro e he n hn
    exact hinv.index_bounds he hn
  · intro hleft n h0 hn
    exact hinv.all_done hleft h0 hn

/-- Two threads and one work: both read the counter before either moves it, and the slower one leaves first. -/
def closeRace : List (ThreadEvent (Fin 2) Int) :=
  [.read 0, .read 1, .claim 1 0, .miss 0, .read 0, .finish 1 0 7, .read 1]

/-- An array of works that are all the same, before they are run. -/
def makeWorks : Int → RunWork := fun _ => ⟨⟨0, CString.lit "/cache/hw1-amy"⟩, CString.lit "make"⟩

theorem closeRace_run (execWork : Int → RunWork → Int → Int) : ∃ s : Threads (Fin 2),
    Machine.Run (threadProc execWork 1) (Threads.start makeWorks) closeRace s ∧ ∀ t, s.thread t = .left := by
  have hsome : (closeRace.foldlM (threadProc execWork 1) (Threads.start makeWorks)).isSome := rfl
  exact ⟨_, Machine.run_iff_foldlM.mpr (Option.some_get hsome).symm, Fin.forall_fin_two.mpr ⟨rfl, rfl⟩⟩

/-- On both platforms the work is run once, by the thread that was faster. -/
theorem threadProc_exactly_once_closeRace :
    (∃ s : Threads (Fin 2),
      Machine.Run (linuxThreadProc (fun _ _ _ status => status) 1) (Threads.start makeWorks) closeRace s
        ∧ (∀ t, s.thread t = .left)
        ∧ ∃ t result, history 0 closeRace = [.claim t 0, .finish t 0 result]
            ∧ s.works 0 = finished (fun _ _ status => status) makeWorks 0 result)
      ∧ ∃ s : Threads (Fin 2),
        Machine.Run (win32ThreadProc (fun _ _ _ status => status) 1) (Threads.start makeWorks) closeRace s
          ∧ (∀ t, s.thread t = .left)
          ∧ ∃ t result, history 0 closeRace = [.claim t 0, .finish t 0 result]
              ∧ s.works 0 = finished (fun _ _ status => status) makeWorks 0 result := by
  obtain ⟨s, hrun, hleft⟩ := closeRace_run (fun _ _ status => status)
  obtain ⟨-, -, -, -, hall⟩ :=
    threadProc_exactly_once (fun _ _ status => status) makeWorks (by decide) (by decide) hrun
  exact ⟨⟨s, hrun, hleft, hall hleft 0 (by decide) (by decide)⟩,
    ⟨s, hrun, hleft, hall hleft 0 (by decide) (by decide)⟩⟩

end Hand2
