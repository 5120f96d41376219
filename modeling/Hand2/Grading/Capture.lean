import Hand2.Grading.ExecLoop

/-!
# `Grading.Capture` — the output of a grading command is captured whole

Whatever the order in which the command writes and the loop of `linux_exec_process` or `win32_exec_process` reads, what
ends up in `stdout_content` and `stderr_content` is what was written into the pipes, and the exit code is that of the
command (`execProcess_captures`).
-/

namespace Hand2

namespace ExecLoop

/-! ## What is captured -/

section Captured

variable {φ κ ς : Type} [DecidableEq φ] {loop : ExecLoop φ κ ς} {s s' : Exec φ ς} {es : List (ExecEvent κ ς)}
  {c : Channel}

/-- Behind the loop, which was left at its condition or broken. -/
def Stopped (loop : ExecLoop φ κ ς) (es : List (ExecEvent κ ς)) (s : Exec φ ς) : Prop :=
  (∃ p, s.phase = .polling p) ∨ ¬ s.more ∨ ∃ k, .control k ∈ es ∧ loop.breaks k = true

theorem Stopped.step {e : ExecEvent κ ς} (h : Stopped loop es s) (hstep : loop.step s e = some s') :
    Stopped loop (es ++ [e]) s' := by
  -- a break stays in the history, and a reader that stopped stays stopped behind the loop
  have hbroken : (∃ k, .control k ∈ es ∧ loop.breaks k = true) → Stopped loop (es ++ [e]) s' := by
    rintro ⟨k, hk, hbreaks⟩
    exact .inr (.inr ⟨k, List.mem_append_left _ hk, hbreaks⟩)
  cases step_goes hstep with
  | outside hphase hmore _ _ _ =>
      rcases h with ⟨p, hp⟩ | hstop | hbreak
      · exact .inl ⟨p, hphase.trans hp⟩
      · refine .inr (.inl ?_)
        unfold Exec.more
        rw [hmore, hmore]
        exact hstop
      · exact hbroken hbreak
  | turns _ hphase' _ _ => exact .inl ⟨_, hphase'⟩
  | left _ hmore hs =>
      subst hs
      exact .inr (.inl hmore)
  | broken _ hbreaks _ => exact .inr (.inr ⟨_, by simp, hbreaks⟩)
  | waited hphase _ hs =>
      subst hs
      rcases h with ⟨p, hp⟩ | hstop | hbreak
      · rw [hp] at hphase
        cases hphase
      · exact .inr (.inl hstop)
      · exact hbroken hbreak
  | unwaited hphase hs =>
      subst hs
      rcases h with ⟨p, hp⟩ | hstop | hbreak
      · rw [hp] at hphase
        cases hphase
      · exact .inr (.inl hstop)
      · exact hbroken hbreak

theorem stopped_run (hrun : Machine.Run loop.step loop.start es s) : Stopped loop es s :=
  hrun.invariant _ (.inl ⟨_, rfl⟩) (fun _ _ _ _ h hstep => h.step hstep)

/-- No read of the pipe fails, and the loop is not broken. -/
def Undisturbed (loop : ExecLoop φ κ ς) (c : Channel) (es : List (ExecEvent κ ς)) : Prop :=
  .readFails c ∉ es ∧ ∀ k, .control k ∈ es → loop.breaks k = false

omit [DecidableEq φ] in
theorem fail_mem_action {es : List (ExecEvent κ ς)} : .fail ∈ es.filterMap (action c) ↔ .readFails c ∈ es := by
  rw [List.mem_filterMap]
  constructor
  · rintro ⟨e, he, hfail⟩
    rcases action_eq_some hfail with ⟨_, -, h⟩ | ⟨-, h⟩ | ⟨_, -, h⟩ | ⟨rfl, -⟩
    · cases h
    · cases h
    · cases h
    · exact he
  · intro h
    exact ⟨_, h, if_pos rfl⟩

/-- **The buffer of a pipe is what was written into it**: at any time the beginning of it, and behind the loop all of
    it, unless a read of the pipe failed or the loop was broken. -/
theorem captures (hrun : Machine.Run loop.step loop.start es s) (c : Channel) :
    (s.reader c).content <+: writtenTo c es ∧
      ((∀ p, s.phase ≠ .polling p) → Undisturbed loop c es →
        (s.reader c).content = writtenTo c es ∧ (s.reader c).stream.AtEnd) := by
  have hinv := readerInv (c := c) hrun
  refine ⟨hinv.content_prefix, ?_⟩
  rintro hbehind ⟨hreads, hbreaks⟩
  rcases stopped_run hrun with ⟨p, hp⟩ | hstop | ⟨k, hk, hbreak⟩
  · exact absurd hp (hbehind p)
  · apply hinv.complete
    · unfold Exec.more at hstop
      rw [not_or, Bool.not_eq_true, Bool.not_eq_true] at hstop
      cases c with
      | stdout => exact hstop.1
      | stderr => exact hstop.2
    · rwa [fail_mem_action]
  · rw [hbreaks k hk] at hbreak
    cases hbreak

/-- How the function ends. -/
structure EndInv (loop : ExecLoop φ κ ς) (es : List (ExecEvent κ ς)) (s : Exec φ ς) : Prop where
  child : ∀ status, s.child = some status → .ends status ∈ es
  waitFails : .waitFails ∈ es → s.phase = outcome none
  done : ∀ code note, s.phase = .done code note →
    .waitFails ∈ es ∨ ∃ status, .ends status ∈ es ∧ s.phase = outcome (loop.exitCode status)

omit [DecidableEq φ] in
theorem EndInv.start : EndInv loop [] loop.start := ⟨nofun, nofun, nofun⟩

theorem EndInv.step {e : ExecEvent κ ς} (h : EndInv loop es s) (hstep : loop.step s e = some s') :
    EndInv loop (es ++ [e]) s' := by
  have hends : ∀ status, s.child = some status → .ends status ∈ es ++ [e] :=
    fun status hchild => List.mem_append_left _ (h.child status hchild)
  -- before the end, no wait has failed
  have hunwaited : (∀ code note, s.phase ≠ .done code note) → e ≠ .waitFails → .waitFails ∉ es ++ [e] := by
    intro hphase he hmem
    rcases List.mem_append.mp hmem with hmem | hmem
    · exact hphase _ _ (h.waitFails hmem)
    · exact he (List.mem_singleton.mp hmem).symm
  cases step_goes hstep with
  | outside hphase _ hchild _ he =>
      refine ⟨?_, ?_, ?_⟩
      · intro status hs
        rcases hchild status hs with hs | rfl
        · exact hends status hs
        · simp
      · intro hmem
        rw [hphase]
        exact h.waitFails ((List.mem_append.mp hmem).resolve_right fun hm => he (List.mem_singleton.mp hm).symm)
      · intro code note hdone
        rw [hphase] at hdone ⊢
        exact (h.done code note hdone).imp (List.mem_append_left _) fun ⟨status, hmem, hout⟩ =>
          ⟨status, List.mem_append_left _ hmem, hout⟩
  | turns hphase hphase' hchild hturn =>
      refine ⟨?_, fun hmem => absurd hmem (hunwaited (by simp [hphase]) ?_), by simp [hphase']⟩
      · intro status hs
        exact hends status (hchild ▸ hs)
      · rintro rfl
        cases hturn
  | left hphase _ hs =>
      subst hs
      exact ⟨hends, fun hmem => absurd hmem (hunwaited (by simp [hphase]) nofun), nofun⟩
  | broken hphase _ hs =>
      subst hs
      exact ⟨hends, fun hmem => absurd hmem (hunwaited (by simp [hphase]) nofun), nofun⟩
  | @waited status hphase hchild hs =>
      subst hs
      exact ⟨hends, fun hmem => absurd hmem (hunwaited (by simp [hphase]) nofun),
        fun _ _ _ => .inr ⟨status, hends status hchild, rfl⟩⟩
  | unwaited _ hs =>
      subst hs
      exact ⟨hends, fun _ => rfl, fun _ _ _ => .inl (by simp)⟩

theorem endInv_run (hrun : Machine.Run loop.step loop.start es s) : EndInv loop es s :=
  hrun.invariant _ EndInv.start (fun _ _ _ _ h hstep => h.step hstep)

/-- **How the function ends**: with the exit code of the command, if it has one and could be waited for. -/
theorem done_cases (hrun : Machine.Run loop.step loop.start es s) {code : Int} {note : List UInt8}
    (hdone : s.phase = .done code note) :
    (.waitFails ∈ es ∧ s.phase = outcome none) ∨
      (.waitFails ∉ es ∧ ∃ status, .ends status ∈ es ∧ s.phase = outcome (loop.exitCode status)) := by
  have hinv := endInv_run hrun
  by_cases hmem : .waitFails ∈ es
  · exact .inl ⟨hmem, hinv.waitFails hmem⟩
  · exact .inr ⟨hmem, (hinv.done code note hdone).resolve_left hmem⟩

end Captured

end ExecLoop

/-! ## `linux_exec_process` and `win32_exec_process` -/

/-- What the caller gets and the callback is handed. -/
structure ExecResult where
  exitCode : Int
  stdoutContent : List UInt8
  stderrContent : List UInt8
  deriving DecidableEq

/-- What a run ends with. -/
def Exec.result {φ ς : Type} (s : Exec φ ς) (exitCode : Int) (note : List UInt8) : ExecResult :=
  ⟨exitCode, (s.reader .stdout).content, (s.reader .stderr).content ++ note⟩

/-- `linux_exec_process`, with what happens at the pipes and in its loop. -/
inductive LinuxExec (command workDir : Option CString) (a : ExecAnswers) :
    List (ExecEvent LinuxControl (Option UInt8)) → ExecResult → Prop
  | noPipe (hpipes : ¬ (a.stdoutCreated ∧ a.stderrCreated)) :
      LinuxExec command workDir a [] ⟨-1, [], (CString.lit "Unable to create pipe").bytes⟩
  | noFork (hstdout : a.stdoutCreated) (hstderr : a.stderrCreated) (hforked : ¬ a.forked) :
      LinuxExec command workDir a [] ⟨-1, [], (CString.lit "Unable to fork").bytes⟩
  | ran {es : List (ExecEvent LinuxControl (Option UInt8))} {s : Exec LinuxPoll (Option UInt8)} {code : Int}
      {note : List UInt8} (hstdout : a.stdoutCreated) (hstderr : a.stderrCreated) (hforked : a.forked)
      (hrun : Machine.Run linuxExecLoop.step linuxExecLoop.start es s) (hdone : s.phase = .done code note)
      (hchild : ∀ status, .ends status ∈ es → status = childStatus command workDir a)
      (hwaited : .waitFails ∈ es ↔ ¬ a.waited) : LinuxExec command workDir a es (s.result code note)

/-- How the system answers the calls of one `win32_exec_process`. -/
structure Win32Answers where
  /-- `MultiByteToWideChar` of the command and, if it is no null pointer, of the directory. -/
  converted : Bool
  pipesCreated : Bool
  processCreated : Bool

/-- `win32_exec_process`. Without a directory the conversion fails, and the message is written from a null pointer. -/
inductive Win32Exec (command : CString) (workDir : Option CString) (a : Win32Answers) :
    List (ExecEvent Win32Control UInt32) → Except Fault ExecResult → Prop
  | noDirectory (hdir : workDir = none) : Win32Exec command workDir a [] (.error .nullPointer)
  | notConverted {dir : CString} (hdir : workDir = some dir) (hconverted : ¬ a.converted) :
      Win32Exec command workDir a [] (.ok ⟨-1, [],
        (CString.lit "MultiByteToWideChar failed\n").bytes ++ command.bytes ++ [newline] ++ dir.bytes ++ [newline]⟩)
  | noPipe {dir : CString} (hdir : workDir = some dir) (hconverted : a.converted) (hpipes : ¬ a.pipesCreated) :
      Win32Exec command workDir a [] (.ok ⟨-1, [], (CString.lit "Unable to create pipe").bytes⟩)
  | noProcess {dir : CString} (hdir : workDir = some dir) (hconverted : a.converted) (hpipes : a.pipesCreated)
      (hprocess : ¬ a.processCreated) :
      Win32Exec command workDir a [] (.ok ⟨-1, [], (CString.lit "Unable to create process").bytes⟩)
  | ran {dir : CString} {es : List (ExecEvent Win32Control UInt32)} {s : Exec Win32Poll UInt32} {code : Int}
      {note : List UInt8} (hdir : workDir = some dir) (hconverted : a.converted) (hpipes : a.pipesCreated)
      (hprocess : a.processCreated) (hrun : Machine.Run win32ExecLoop.step win32ExecLoop.start es s)
      (hdone : s.phase = .done code note) : Win32Exec command workDir a es (.ok (s.result code note))

section Platforms

variable {command : Option CString} {workDir : Option CString} {a : ExecAnswers}
  {es : List (ExecEvent LinuxControl (Option UInt8))} {r : ExecResult}

/-- **The exit code is the one of the command**, as `linuxExecProcess` has it from the answers of the system. -/
theorem linuxExec_exitCode (h : LinuxExec command workDir a es r) :
    r.exitCode = linuxExecProcess command workDir a := by
  unfold linuxExecProcess
  cases h with
  | noPipe hpipes =>
      rw [if_neg fun hall => hpipes ⟨hall.1, hall.2.1⟩]
  | noFork _ _ hforked =>
      rw [if_neg fun hall => hforked hall.2.2.1]
  | @ran _ s code note hstdout hstderr hforked hrun hdone hchild hwaited =>
      rcases ExecLoop.done_cases hrun hdone with ⟨hfails, hout⟩ | ⟨hwait, status, hends, hout⟩
      · rw [if_neg fun hall => hwaited.mp hfails hall.2.2.2]
        rw [hdone] at hout
        injection hout
      · have hw : a.waited = true := by
          by_contra hno
          exact hwait (hwaited.mpr hno)
        rw [if_pos ⟨hstdout, hstderr, hforked, hw⟩, ← hchild status hends]
        rw [hdone] at hout
        cases status with
        | none => injection hout
        | some code => injection hout

/-- What `stderr_content` ends with. -/
def exitNote (unknown : Prop) [Decidable unknown] : List UInt8 :=
  if unknown then (CString.lit "Unable to obtain exit code").bytes else []

/-- The output of a command that was started. -/
theorem linuxExec_output (h : LinuxExec command workDir a es r)
    (hstarted : a.stdoutCreated ∧ a.stderrCreated ∧ a.forked)
    (hundisturbed : ∀ c, ExecLoop.Undisturbed linuxExecLoop c es) :
    r.stdoutContent = ExecLoop.writtenTo .stdout es ∧
      r.stderrContent = ExecLoop.writtenTo .stderr es ++
        exitNote (.waitFails ∈ es ∨ childStatus command workDir a = none) := by
  cases h with
  | noPipe hpipes => exact absurd ⟨hstarted.1, hstarted.2.1⟩ hpipes
  | noFork _ _ hno => exact absurd hstarted.2.2 hno
  | @ran _ s code note _ _ _ hrun hdone hchild _ =>
      have hbehind : ∀ p, s.phase ≠ .polling p := by simp [hdone]
      have hout := ((ExecLoop.captures hrun .stdout).2 hbehind (hundisturbed _)).1
      have herr := ((ExecLoop.captures hrun .stderr).2 hbehind (hundisturbed _)).1
      refine ⟨hout, ?_⟩
      show (s.reader .stderr).content ++ note = _
      rw [herr]
      congr 1
      unfold exitNote
      rcases ExecLoop.done_cases hrun hdone with ⟨hfails, hphase⟩ | ⟨hwait, status, hends, hphase⟩
      · rw [if_pos (.inl hfails)]
        rw [hdone] at hphase
        injection hphase
      · rw [hdone] at hphase
        cases status with
        | none =>
            rw [if_pos (.inr (hchild none hends).symm)]
            injection hphase
        | some status =>
            rw [if_neg]
            · injection hphase
            · rw [← hchild _ hends]
              simp [hwait]

/-- The output of a command that was started, on the other platform. -/
theorem win32Exec_output {command : CString} {workDir : Option CString} {a : Win32Answers}
    {es : List (ExecEvent Win32Control UInt32)} {r : ExecResult} (h : Win32Exec command workDir a es (.ok r))
    (hstarted : a.converted ∧ a.pipesCreated ∧ a.processCreated) (hreads : ∀ c, .readFails c ∉ es) :
    r.stdoutContent = ExecLoop.writtenTo .stdout es ∧
      r.stderrContent = ExecLoop.writtenTo .stderr es ++ exitNote (.waitFails ∈ es) := by
  cases h with
  | notConverted _ hno     => exact absurd hstarted.1 hno
  | noPipe _ _ hno         => exact absurd hstarted.2.1 hno
  | noProcess _ _ _ hno    => exact absurd hstarted.2.2 hno
  | @ran dir _ s code note _ _ _ _ hrun hdone =>
      have hbehind : ∀ p, s.phase ≠ .polling p := by simp [hdone]
      have hundisturbed : ∀ c, ExecLoop.Undisturbed win32ExecLoop c es := fun c => ⟨hreads c, fun _ _ => rfl⟩
      have hout := ((ExecLoop.captures hrun .stdout).2 hbehind (hundisturbed _)).1
      have herr := ((ExecLoop.captures hrun .stderr).2 hbehind (hundisturbed _)).1
      refine ⟨hout, ?_⟩
      show (s.reader .stderr).content ++ note = _
      rw [herr]
      congr 1
      unfold exitNote
      rcases ExecLoop.done_cases hrun hdone with ⟨hfails, hphase⟩ | ⟨hwait, status, -, hphase⟩
      · rw [if_pos hfails]
        rw [hdone] at hphase
        injection hphase
      · rw [if_neg hwait]
        rw [hdone] at hphase
        injection hphase

end Platforms

/-- **A grading command's output is captured whole, and its exit code is its own**, on both platforms and in every
    order in which the command writes and the loop reads: unless a read fails (or `select` does), each buffer is
    exactly what was written into its pipe, with a note behind it if there was no exit code to be had. -/
theorem execProcess_captures :
    (∀ (command workDir : Option CString) (a : ExecAnswers) (es : List (ExecEvent LinuxControl (Option UInt8)))
        (r : ExecResult), LinuxExec command workDir a es r →
      r.exitCode = linuxExecProcess command workDir a ∧
        ((a.stdoutCreated ∧ a.stderrCreated ∧ a.forked) → (∀ c, ExecLoop.Undisturbed linuxExecLoop c es) →
          r.stdoutContent = ExecLoop.writtenTo .stdout es ∧
            r.stderrContent = ExecLoop.writtenTo .stderr es ++
              exitNote (.waitFails ∈ es ∨ childStatus command workDir a = none))) ∧
      (∀ (command : CString) (workDir : Option CString) (a : Win32Answers)
          (es : List (ExecEvent Win32Control UInt32)) (r : ExecResult), Win32Exec command workDir a es (.ok r) →
        (a.converted ∧ a.pipesCreated ∧ a.processCreated) → (∀ c, .readFails c ∉ es) →
          r.stdoutContent = ExecLoop.writtenTo .stdout es ∧
            r.stderrContent = ExecLoop.writtenTo .stderr es ++ exitNote (.waitFails ∈ es)) :=
  ⟨fun _ _ _ _ _ h => ⟨linuxExec_exitCode h, linuxExec_output h⟩, fun _ _ _ _ _ => win32Exec_output⟩

/-- A command that says something, in two parts, and ends. -/
def talkative : List (ExecEvent LinuxControl (Option UInt8)) :=
  [.writes .stdout [104, 105], .control .select, .read .stdout 1, .writes .stderr [33], .skip .stderr, .control .select,
    .closes .stdout, .read .stdout 1, .ends (some 3), .read .stderr 1, .closes .stderr, .control .select,
    .read .stdout 0, .read .stderr 0, .leave, .wait]

/-- How the system answers for it. -/
def talkativeAnswers : ExecAnswers := ⟨true, true, true, true, fun _ => some 3, true⟩

theorem execProcess_captures_talkative :
    ∃ r : ExecResult, LinuxExec (some (CString.lit "make")) (some (CString.lit "/hw1")) talkativeAnswers talkative r ∧
      r.exitCode = 3 ∧ r.stdoutContent = [104, 105] ∧ r.stderrContent = [33] := by
  have hsome : (talkative.foldlM linuxExecLoop.step linuxExecLoop.start).isSome := rfl
  have hrun : Machine.Run linuxExecLoop.step linuxExecLoop.start talkative _ :=
    Machine.run_iff_foldlM.mpr (Option.some_get hsome).symm
  have hdone : (Option.get _ hsome).phase = .done 3 [] := rfl
  have hends : ∀ status, .ends status ∈ talkative → status = some 3 := by simp [talkative]
  have hundisturbed : ∀ c, ExecLoop.Undisturbed linuxExecLoop c talkative := by
    intro c
    refine ⟨by cases c <;> decide, ?_⟩
    intro k hk
    cases k with
    | select      => rfl
    | selectFails => exact absurd hk (by decide)
  have hexec : LinuxExec (some (CString.lit "make")) (some (CString.lit "/hw1")) talkativeAnswers talkative _ :=
    .ran rfl rfl rfl hrun hdone hends (by decide)
  obtain ⟨hcode, hcontents⟩ := execProcess_captures.1 _ _ _ _ _ hexec
  obtain ⟨hout, herr⟩ := hcontents ⟨rfl, rfl, rfl⟩ hundisturbed
  exact ⟨_, hexec, hcode, hout, herr⟩

end Hand2
