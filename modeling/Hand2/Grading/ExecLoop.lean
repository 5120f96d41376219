import Hand2.Library.Pipe
import Hand2.Grading.Completion

/-!
# `Grading.ExecLoop` — a grading command and the loop that reads its output

`linux_exec_process` and `win32_exec_process` from the start of the command to its exit code. The command writes into
two pipes while one loop reads both, so neither may be left to fill up: the loop looks at each pipe in turn and only
reads what is there. The command, whoever holds its pipes, and the loop act in any order (`ExecLoop.step`); where the
loop looks at what, and how it finds out what is there, is what the platforms differ in. As far as one pipe goes, a run
is a run of a reader of that pipe (`ExecLoop.reader_run`).
-/

namespace Hand2

open Pipe (Reader Action Stream)

/-- The two pipes of a command. -/
inductive Channel where
  | stdout
  | stderr
  deriving DecidableEq

/-- Where the function is: in its loop, before it waits for the end of the command, or done. -/
inductive ExecPhase (φ : Type) where
  | polling (p : φ)
  | waiting
  /-- With the exit code, and what was put behind `stderr_content`. -/
  | done (exitCode : Int) (note : List UInt8)
  deriving DecidableEq

/-- A command that runs, with the buffers its output goes into; `ς` is how it can end. -/
structure Exec (φ ς : Type) where
  reader : Channel → Reader UInt8
  phase : ExecPhase φ
  child : Option ς

/-- `more_stdout || more_stderr`. -/
def Exec.more {φ ς : Type} (s : Exec φ ς) : Prop := (s.reader .stdout).more ∨ (s.reader .stderr).more

instance {φ ς : Type} (s : Exec φ ς) : Decidable s.more := inferInstanceAs (Decidable (_ ∨ _))

/-- What can happen; `κ` are the steps of the loop that leave the buffers alone. -/
inductive ExecEvent (κ ς : Type) where
  /-- The command writes into a pipe. -/
  | writes (c : Channel) (bytes : List UInt8)
  /-- The last one that could write into a pipe closes it. -/
  | closes (c : Channel)
  /-- The command ends. -/
  | ends (status : ς)
  /-- The loop is left at its condition. -/
  | leave
  | read (c : Channel) (count : Nat)
  | readFails (c : Channel)
  /-- The branch of a pipe is not taken. -/
  | skip (c : Channel)
  | control (k : κ)
  /-- `waitpid`, or `WaitForSingleObject` and `GetExitCodeProcess`. -/
  | wait
  | waitFails
  deriving DecidableEq

/-- The loop of one platform. -/
structure ExecLoop (φ κ ς : Type) where
  /-- At the condition of `while`. -/
  head : φ
  /-- The branch of a pipe: if it is entered for a pipe that has more, and where the loop is behind it. -/
  branch : φ → Channel → Option (Bool × φ)
  /-- `max_byte_read`, if there is one. -/
  maxRead : Option Nat
  /-- A step that leaves the buffers alone: to another place, or to the end of the loop. -/
  control : (Channel → Reader UInt8) → φ → κ → Option (Option φ)
  /-- The call that fails ends the loop. -/
  breaks : κ → Bool
  breaks_of_none : ∀ r p k, control r p k = some none → breaks k = true
  exitCode : ς → Option Int

namespace ExecLoop

section Step

variable {φ κ ς : Type} [DecidableEq φ] (loop : ExecLoop φ κ ς)

/-- When the command is started. -/
def start : Exec φ ς := ⟨fun _ => Reader.start, .polling loop.head, none⟩

/-- Something happens at a pipe. -/
def atPipe (s : Exec φ ς) (c : Channel) (a : Action UInt8) : Option (Exec φ ς) :=
  ((s.reader c).step a).map fun r => { s with reader := Function.update s.reader c r }

/-- A read, or its failure, in the branch of a pipe. -/
def inBranch (s : Exec φ ς) (c : Channel) (a : Action UInt8) : Option (Exec φ ς) :=
  match s.phase with
  | .polling p =>
      match loop.branch p c with
      | some (true, next) => (atPipe s c a).map fun s => { s with phase := .polling next }
      | _                 => none
  | _ => none

/-- The end of the function, with an exit code if there is one. -/
def outcome : Option Int → ExecPhase φ
  | some code => .done code []
  | none      => .done (-1) (CString.lit "Unable to obtain exit code").bytes

/-- The loop and what goes on around it. -/
def step (s : Exec φ ς) : ExecEvent κ ς → Option (Exec φ ς)
  | .writes c bytes => atPipe s c (.put bytes)
  | .closes c       => atPipe s c .close
  | .ends status    => if s.child.isNone then some { s with child := some status } else none
  | .leave          => if s.phase = .polling loop.head ∧ ¬ s.more then some { s with phase := .waiting } else none
  | .read c count   => if loop.maxRead.all (count ≤ ·) then loop.inBranch s c (.read count) else none
  | .readFails c    => loop.inBranch s c .fail
  | .skip c         =>
      match s.phase with
      | .polling p =>
          match loop.branch p c with
          | some (taken, next) =>
              if (p = loop.head → s.more) ∧ ¬ (taken ∧ (s.reader c).more) then
                some { s with phase := .polling next }
              else none
          | none => none
      | _ => none
  | .control k      =>
      match s.phase with
      | .polling p =>
          if p = loop.head → s.more then
            (loop.control s.reader p k).map fun next => { s with phase := next.elim .waiting .polling }
          else none
      | _ => none
  | .wait           =>
      match s.child with
      | some status => if s.phase = .waiting then some { s with phase := outcome (loop.exitCode status) } else none
      | none        => none
  | .waitFails      => if s.phase = .waiting then some { s with phase := outcome none } else none

end Step

end ExecLoop

/-! ## The two platforms -/

/-- Where `linux_exec_process` is in its loop. -/
inductive LinuxPoll where
  | looping
  /-- Behind `select`, with what `FD_ISSET` says of the pipes. -/
  | selected (stdoutSet stderrSet : Bool)
  /-- Behind the branch of `stdout`. -/
  | stdoutDone (stderrSet : Bool)
  deriving DecidableEq

inductive LinuxControl where
  | select
  | selectFails
  deriving DecidableEq

/-- The loop of `linux_exec_process`; a command that is killed has no exit status. -/
def linuxExecLoop : ExecLoop LinuxPoll LinuxControl (Option UInt8) where
  head := .looping
  branch
    | .selected stdoutSet stderrSet, .stdout => some (stdoutSet, .stdoutDone stderrSet)
    | .stdoutDone stderrSet, .stderr         => some (stderrSet, .looping)
    | _, _                                   => none
  maxRead := some 4096
  control
    -- both pipes are in `read_set`, also one that has no more
    | r, .looping, .select      => some (some (.selected (r .stdout).stream.readable (r .stderr).stream.readable))
    | _, .looping, .selectFails => some none
    | _, _, _                   => none
  breaks
    | .select      => false
    | .selectFails => true
  breaks_of_none := by
    intro r p k h
    cases p <;> cases k <;> first | rfl | cases h
  exitCode status := status.map fun status => (status.toNat : Int)

/-- Where `win32_exec_process` is in its loop. -/
inductive Win32Poll where
  | looping
  | stdoutDone
  deriving DecidableEq

/-- `PeekNamedPipe` finds a pipe empty, and `WaitForSingleObject` returns. -/
inductive Win32Control where
  | idle (c : Channel)
  deriving DecidableEq

/-- The loop of `win32_exec_process`. `PeekNamedPipe` fails at the end of a pipe, which here is a read of nothing. -/
def win32ExecLoop : ExecLoop Win32Poll Win32Control UInt32 where
  head := .looping
  branch
    | .looping, .stdout    => some (true, .stdoutDone)
    | .stdoutDone, .stderr => some (true, .looping)
    | _, _                 => none
  maxRead := none
  control
    | r, .looping, .idle .stdout =>
        if (r .stdout).more ∧ ¬ (r .stdout).stream.readable then some (some .stdoutDone) else none
    | r, .stdoutDone, .idle .stderr =>
        if (r .stderr).more ∧ ¬ (r .stderr).stream.readable then some (some .looping) else none
    | _, _, _ => none
  breaks _ := false
  breaks_of_none := by
    rintro r p ⟨c⟩ h
    cases p <;> cases c <;>
      first
        | cases h
        | cases (Option.ite_none_right_eq_some.mp h).2
  exitCode status := some (cInt status.toNat)

namespace ExecLoop

/-! ## What a step does -/

section Cases

variable {φ κ ς : Type} [DecidableEq φ] {loop : ExecLoop φ κ ς} {s s' : Exec φ ς} {c : Channel}

omit [DecidableEq φ] in
theorem atPipe_cases {a : Action UInt8} (h : atPipe s c a = some s') :
    ∃ r, (s.reader c).step a = some r ∧ s' = { s with reader := Function.update s.reader c r } := by
  obtain ⟨r, hr, heq⟩ := Option.map_eq_some_iff.mp h
  exact ⟨r, hr, heq.symm⟩

omit [DecidableEq φ] in
/-- A read happens in the branch of its pipe. -/
theorem inBranch_cases {a : Action UInt8} (h : loop.inBranch s c a = some s') :
    ∃ p next r, s.phase = .polling p ∧ loop.branch p c = some (true, next) ∧ (s.reader c).step a = some r ∧
      s' = { s with reader := Function.update s.reader c r, phase := .polling next } := by
  unfold inBranch at h
  split at h
  · next p hp =>
      split at h
      · next next hbranch =>
          obtain ⟨t, ht, rfl⟩ := Option.map_eq_some_iff.mp h
          obtain ⟨r, hr, rfl⟩ := atPipe_cases ht
          exact ⟨p, next, r, hp, hbranch, hr, rfl⟩
      · cases h
  · cases h

theorem leave_cases (h : loop.step s .leave = some s') :
    s.phase = .polling loop.head ∧ ¬ s.more ∧ s' = { s with phase := .waiting } := by
  obtain ⟨⟨hphase, hmore⟩, h⟩ := Option.ite_none_right_eq_some.mp h
  exact ⟨hphase, hmore, (Option.some.inj h).symm⟩

theorem read_cases {count : Nat} (h : loop.step s (.read c count) = some s') :
    loop.maxRead.all (count ≤ ·) = true ∧ loop.inBranch s c (.read count) = some s' :=
  Option.ite_none_right_eq_some.mp h

/-- The branch that is not taken: nothing was seen in the pipe, or no more is expected there. -/
theorem skip_cases (h : loop.step s (.skip c) = some s') :
    ∃ p taken next, s.phase = .polling p ∧ loop.branch p c = some (taken, next) ∧ (p = loop.head → s.more) ∧
      ¬ (taken = true ∧ (s.reader c).more = true) ∧ s' = { s with phase := .polling next } := by
  simp only [step] at h
  split at h
  · next p hp =>
      split at h
      · next taken next hbranch =>
          obtain ⟨⟨hhead, hskip⟩, h⟩ := Option.ite_none_right_eq_some.mp h
          exact ⟨p, taken, next, hp, hbranch, hhead, hskip, (Option.some.inj h).symm⟩
      · cases h
  · cases h

theorem control_cases {k : κ} (h : loop.step s (.control k) = some s') :
    ∃ p next, s.phase = .polling p ∧ (p = loop.head → s.more) ∧ loop.control s.reader p k = some next ∧
      s' = { s with phase := next.elim .waiting .polling } := by
  simp only [step] at h
  split at h
  · next p hp =>
      obtain ⟨hhead, h⟩ := Option.ite_none_right_eq_some.mp h
      obtain ⟨next, hnext, rfl⟩ := Option.map_eq_some_iff.mp h
      exact ⟨p, next, hp, hhead, hnext, rfl⟩
  · cases h

theorem ends_cases {status : ς} (h : loop.step s (.ends status) = some s') :
    s.child = none ∧ s' = { s with child := some status } := by
  obtain ⟨hchild, h⟩ := Option.ite_none_right_eq_some.mp h
  exact ⟨Option.isNone_iff_eq_none.mp hchild, (Option.some.inj h).symm⟩

theorem wait_cases (h : loop.step s .wait = some s') :
    ∃ status, s.child = some status ∧ s.phase = .waiting ∧
      s' = { s with phase := outcome (loop.exitCode status) } := by
  simp only [step] at h
  split at h
  · next status hchild =>
      obtain ⟨hphase, h⟩ := Option.ite_none_right_eq_some.mp h
      exact ⟨status, hchild, hphase, (Option.some.inj h).symm⟩
  · cases h

theorem waitFails_cases (h : loop.step s .waitFails = some s') :
    s.phase = .waiting ∧ s' = { s with phase := outcome none } := by
  obtain ⟨hphase, h⟩ := Option.ite_none_right_eq_some.mp h
  exact ⟨hphase, (Option.some.inj h).symm⟩

end Cases

/-! ## Each pipe by itself -/

section Pipes

variable {φ κ ς : Type} [DecidableEq φ] {loop : ExecLoop φ κ ς} {s s' : Exec φ ς} {es : List (ExecEvent κ ς)}
  {c : Channel}

/-- What an event is at pipe `c`. -/
def action (c : Channel) : ExecEvent κ ς → Option (Action UInt8)
  | .writes c' bytes => if c' = c then some (.put bytes) else none
  | .closes c'       => if c' = c then some .close else none
  | .read c' count   => if c' = c then some (.read count) else none
  | .readFails c'    => if c' = c then some .fail else none
  | _                => none

/-- What is written into a pipe. -/
def writtenTo (c : Channel) (es : List (ExecEvent κ ς)) : List UInt8 := Pipe.writtenBy (es.filterMap (action c))

omit [DecidableEq φ] in
theorem action_eq_some {e : ExecEvent κ ς} {a : Action UInt8} (h : action c e = some a) :
    (∃ bytes, e = .writes c bytes ∧ a = .put bytes) ∨ (e = .closes c ∧ a = .close) ∨
      (∃ count, e = .read c count ∧ a = .read count) ∨ (e = .readFails c ∧ a = .fail) := by
  cases e with
  | writes c' bytes =>
      obtain ⟨rfl, ha⟩ := Option.ite_none_right_eq_some.mp h
      exact .inl ⟨bytes, rfl, (Option.some.inj ha).symm⟩
  | closes c' =>
      obtain ⟨rfl, ha⟩ := Option.ite_none_right_eq_some.mp h
      exact .inr (.inl ⟨rfl, (Option.some.inj ha).symm⟩)
  | read c' count =>
      obtain ⟨rfl, ha⟩ := Option.ite_none_right_eq_some.mp h
      exact .inr (.inr (.inl ⟨count, rfl, (Option.some.inj ha).symm⟩))
  | readFails c' =>
      obtain ⟨rfl, ha⟩ := Option.ite_none_right_eq_some.mp h
      exact .inr (.inr (.inr ⟨rfl, (Option.some.inj ha).symm⟩))
  | _ => cases h

omit [DecidableEq φ] in
/-- A step at one pipe, seen from any. -/
theorem atPipe_follows {c' : Channel} {a : Action UInt8} {r : Reader UInt8} (hr : (s.reader c').step a = some r) :
    Machine.Follows Reader.step (s.reader c) (Function.update s.reader c' r c) (if c' = c then some a else none) := by
  by_cases hc : c' = c
  · subst hc
    rw [if_pos rfl, Function.update_self]
    exact hr
  · rw [if_neg hc]
    exact Function.update_of_ne (Ne.symm hc) _ _

/-- A pipe and its buffer change as a reader does, and by nothing else. -/
theorem step_follows {e : ExecEvent κ ς} (hstep : loop.step s e = some s') :
    Machine.Follows Reader.step (s.reader c) (s'.reader c) (action c e) := by
  cases e with
  | writes c' bytes =>
      obtain ⟨r, hr, rfl⟩ := atPipe_cases hstep
      exact atPipe_follows hr
  | closes c' =>
      obtain ⟨r, hr, rfl⟩ := atPipe_cases hstep
      exact atPipe_follows hr
  | ends status =>
      obtain ⟨-, rfl⟩ := ends_cases hstep
      rfl
  | leave =>
      obtain ⟨-, -, rfl⟩ := leave_cases hstep
      rfl
  | read c' count =>
      obtain ⟨_, _, r, -, -, hr, rfl⟩ := inBranch_cases (read_cases hstep).2
      exact atPipe_follows hr
  | readFails c' =>
      obtain ⟨_, _, r, -, -, hr, rfl⟩ := inBranch_cases hstep
      exact atPipe_follows hr
  | skip c' =>
      obtain ⟨_, _, _, -, -, -, -, rfl⟩ := skip_cases hstep
      rfl
  | control k =>
      obtain ⟨_, _, -, -, -, rfl⟩ := control_cases hstep
      rfl
  | wait =>
      obtain ⟨_, -, -, rfl⟩ := wait_cases hstep
      rfl
  | waitFails =>
      obtain ⟨-, rfl⟩ := waitFails_cases hstep
      rfl

/-- **A run is a run of each pipe with its buffer.** -/
theorem reader_run (hrun : Machine.Run loop.step loop.start es s) :
    Machine.Run Reader.step Reader.start (es.filterMap (action c)) (s.reader c) :=
  hrun.project (fun s : Exec φ ς => s.reader c) (action c) (fun _ _ _ => step_follows)

theorem readerInv (hrun : Machine.Run loop.step loop.start es s) :
    Pipe.ReaderInv (es.filterMap (action c)) (s.reader c) :=
  Pipe.readerInv_run (reader_run hrun)

end Pipes

/-! ## Where the function goes -/

section Goes

variable {φ κ ς : Type} [DecidableEq φ] {loop : ExecLoop φ κ ς} {s s' : Exec φ ς}

/-- The event is a step of the loop. -/
def isTurn : ExecEvent κ ς → Bool
  | .leave       => true
  | .read _ _    => true
  | .readFails _ => true
  | .skip _      => true
  | .control _   => true
  | _            => false

/-- Where the function goes in a step. -/
inductive Goes (loop : ExecLoop φ κ ς) (s s' : Exec φ ς) : ExecEvent κ ς → Prop where
  /-- The command does something. -/
  | outside {e : ExecEvent κ ς} (hphase : s'.phase = s.phase) (hmore : ∀ c, (s'.reader c).more = (s.reader c).more)
      (hchild : ∀ status, s'.child = some status → s.child = some status ∨ e = .ends status)
      (hturn : isTurn e = false) (he : e ≠ .waitFails) : Goes loop s s' e
  | turns {e : ExecEvent κ ς} {p p' : φ} (hphase : s.phase = .polling p) (hphase' : s'.phase = .polling p')
      (hchild : s'.child = s.child) (hturn : isTurn e = true) : Goes loop s s' e
  | left (hphase : s.phase = .polling loop.head) (hmore : ¬ s.more) (hs : s' = { s with phase := .waiting }) :
      Goes loop s s' .leave
  | broken {k : κ} {p : φ} (hphase : s.phase = .polling p) (hbreaks : loop.breaks k = true)
      (hs : s' = { s with phase := .waiting }) : Goes loop s s' (.control k)
  | waited {status : ς} (hphase : s.phase = .waiting) (hchild : s.child = some status)
      (hs : s' = { s with phase := outcome (loop.exitCode status) }) : Goes loop s s' .wait
  | unwaited (hphase : s.phase = .waiting) (hs : s' = { s with phase := outcome none }) : Goes loop s s' .waitFails

omit [DecidableEq φ] in
/-- What the command does leaves the readers where they are. -/
theorem more_update {c' : Channel} {r : Reader UInt8} (hr : r.more = (s.reader c').more) (c : Channel) :
    (Function.update s.reader c' r c).more = (s.reader c).more := by
  by_cases hc : c = c'
  · subst hc
    rw [Function.update_self, hr]
  · rw [Function.update_of_ne hc]

theorem step_goes {e : ExecEvent κ ς} (hstep : loop.step s e = some s') : Goes loop s s' e := by
  cases e with
  | writes c' bytes =>
      obtain ⟨r, hr, rfl⟩ := atPipe_cases hstep
      obtain ⟨-, rfl⟩ := Pipe.put_cases hr
      exact .outside rfl (more_update rfl) (fun _ h => .inl h) rfl nofun
  | closes c' =>
      obtain ⟨r, hr, rfl⟩ := atPipe_cases hstep
      obtain ⟨-, rfl⟩ := Pipe.close_cases hr
      exact .outside rfl (more_update rfl) (fun _ h => .inl h) rfl nofun
  | ends status =>
      obtain ⟨-, rfl⟩ := ends_cases hstep
      refine .outside rfl (fun _ => rfl) ?_ rfl nofun
      intro status' h
      injection h with h
      exact .inr (by rw [h])
  | leave =>
      obtain ⟨hphase, hmore, hs⟩ := leave_cases hstep
      exact .left hphase hmore hs
  | read c' count =>
      obtain ⟨p, next, r, hp, -, -, rfl⟩ := inBranch_cases (read_cases hstep).2
      exact .turns hp rfl rfl rfl
  | readFails c' =>
      obtain ⟨p, next, r, hp, -, -, rfl⟩ := inBranch_cases hstep
      exact .turns hp rfl rfl rfl
  | skip c' =>
      obtain ⟨p, _, next, hp, -, -, -, rfl⟩ := skip_cases hstep
      exact .turns hp rfl rfl rfl
  | control k =>
      obtain ⟨p, next, hp, -, hcontrol, rfl⟩ := control_cases hstep
      cases next with
      | none       => exact .broken hp (loop.breaks_of_none _ _ _ hcontrol) rfl
      | some next  => exact .turns hp rfl rfl rfl
  | wait =>
      obtain ⟨status, hchild, hphase, hs⟩ := wait_cases hstep
      exact .waited hphase hchild hs
  | waitFails =>
      obtain ⟨hphase, hs⟩ := waitFails_cases hstep
      exact .unwaited hphase hs

end Goes

end ExecLoop

end Hand2
