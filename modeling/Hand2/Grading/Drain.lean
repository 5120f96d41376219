import Hand2.Grading.ExecLoop

/-!
# `Grading.Drain` — the loop and the command never wait for each other

A command blocks when a pipe is full, and one that reads only one of two pipes can block for good. The loop of
`linux_exec_process` never does (nor that of `win32_exec_process`): it always has a step to take, of six steps one reads
a given pipe that has something, and once the pipes are closed it ends within a number of steps that what is left in
them bounds. Steps are counted down by how far the loop is from the read (`Turns`).
-/

namespace Hand2

open Pipe (Reader Action Stream)

namespace ExecLoop

/-! ## The loop goes on -/

section Turns

variable {φ κ ς : Type} {loop : ExecLoop φ κ ς} {s s' : Exec φ ς} {es : List (ExecEvent κ ς)} {c : Channel}

/-- The event is no failed call of the loop. -/
def GoesOn (loop : ExecLoop φ κ ς) (e : ExecEvent κ ς) : Prop :=
  (∀ c, e ≠ .readFails c) ∧ ∀ k, e = .control k → loop.breaks k = false

/-- How far the loop is from the read of a pipe that has something, and from its condition. -/
structure Turns (loop : ExecLoop φ κ ς) where
  rank : Channel → φ → Nat
  rank_le : ∀ c p, rank c p ≤ 5
  toHead : φ → Nat
  toHead_le : ∀ p, toHead p ≤ 2
  toHead_lt : ∀ {p c taken next}, loop.branch p c = some (taken, next) → p ≠ loop.head → toHead next < toHead p
  /-- The branch of another pipe, or the own one when it was too early, brings the read nearer. -/
  branch_lt : ∀ {p c taken next c'}, loop.branch p c = some (taken, next) → c' ≠ c ∨ taken = false →
    rank c' next < rank c' p
  control_lt : ∀ {r p k next c}, loop.control r p k = some (some next) → (r c).stream.readable = true →
    rank c next < rank c p
  /-- Away from the condition, a step that leaves the buffers alone is in the branch of a pipe that has more. -/
  control_more : ∀ {r p k next}, loop.control r p k = some (some next) → p = loop.head ∨ ∃ c, (r c).more = true

/-- How far the loop is from the read of pipe `c`. -/
def Turns.distance (turns : Turns loop) (c : Channel) (s : Exec φ ς) : Nat :=
  match s.phase with
  | .polling p => turns.rank c p
  | _          => 0

theorem Turns.distance_polling (turns : Turns loop) {p : φ} (h : s.phase = .polling p) :
    turns.distance c s = turns.rank c p := by
  rw [distance, h]

/-- The loop is running, and there is something in pipe `c` that it has yet to read. -/
structure Waits (c : Channel) (s : Exec φ ς) : Prop where
  polling : ∃ p, s.phase = .polling p
  more : (s.reader c).more = true
  inside : (s.reader c).stream.inside ≠ []

theorem Waits.readable (h : Waits c s) : (s.reader c).stream.readable = true :=
  Stream.readable_iff.mpr (.inl h.inside)

theorem Waits.anyMore (h : Waits c s) : s.more := by
  cases c with
  | stdout => exact .inl h.more
  | stderr => exact .inr h.more

/-- Writers, and what goes on at the other pipe, leave what waits in the pipe where it is. -/
theorem Waits.of_follows {e : ExecEvent κ ς} (h : Waits c s) (hpolling : ∃ p, s'.phase = .polling p)
    (hfollows : Machine.Follows Reader.step (s.reader c) (s'.reader c) (action c e))
    (hread : ∀ count, e ≠ .read c count) (hfail : e ≠ .readFails c) : Waits c s' := by
  cases hact : action c e with
  | none =>
      rw [hact] at hfollows
      simp only [Machine.Follows] at hfollows
      exact ⟨hpolling, hfollows ▸ h.more, hfollows ▸ h.inside⟩
  | some a =>
      rw [hact] at hfollows
      rcases action_eq_some hact with ⟨bytes, -, rfl⟩ | ⟨-, rfl⟩ | ⟨count, he, -⟩ | ⟨he, -⟩
      · obtain ⟨-, hr⟩ := Pipe.put_cases hfollows
        refine ⟨hpolling, by rw [hr]; exact h.more, ?_⟩
        rw [hr]
        simp [Stream.put, h.inside]
      · obtain ⟨-, hr⟩ := Pipe.close_cases hfollows
        exact ⟨hpolling, by rw [hr]; exact h.more, by rw [hr]; exact h.inside⟩
      · exact absurd he (hread count)
      · exact absurd he hfail

variable [DecidableEq φ]

/-- A step that leaves something waiting in the pipe keeps the loop running. -/
theorem Waits.polling_step {e : ExecEvent κ ς} (h : Waits c s) (hgoes : GoesOn loop e)
    (hstep : loop.step s e = some s') : ∃ p, s'.phase = .polling p := by
  obtain ⟨p, hp⟩ := h.polling
  cases step_goes hstep with
  | outside hphase _ _ _ _   => exact ⟨p, hphase.trans hp⟩
  | turns _ hphase' _ _      => exact ⟨_, hphase'⟩
  | left _ hmore _           => exact absurd h.anyMore hmore
  | broken _ hbreaks _       => rw [hgoes.2 _ rfl] at hbreaks; cases hbreaks
  | waited hphase _ _        => rw [hp] at hphase; cases hphase
  | unwaited hphase _        => rw [hp] at hphase; cases hphase

/-- A step of the loop that is not the read brings it nearer. -/
theorem Waits.distance_lt (turns : Turns loop) {e : ExecEvent κ ς} (h : Waits c s) (hgoes : GoesOn loop e)
    (hread : ∀ count, e ≠ .read c count) (hturn : isTurn e = true) (hstep : loop.step s e = some s') :
    turns.distance c s' < turns.distance c s := by
  cases e with
  | leave =>
      obtain ⟨-, hmore, -⟩ := leave_cases hstep
      exact absurd h.anyMore hmore
  | read c' count =>
      obtain ⟨p, next, r, hp, hbranch, -, rfl⟩ := inBranch_cases (read_cases hstep).2
      rw [turns.distance_polling hp, turns.distance_polling rfl]
      apply turns.branch_lt hbranch
      left
      rintro rfl
      exact hread count rfl
  | readFails c' => exact absurd rfl (hgoes.1 c')
  | skip c' =>
      obtain ⟨p, taken, next, hp, hbranch, -, hskip, rfl⟩ := skip_cases hstep
      rw [turns.distance_polling hp, turns.distance_polling rfl]
      apply turns.branch_lt hbranch
      by_cases hc : c = c'
      · subst hc
        exact .inr (by simpa [h.more] using hskip)
      · exact .inl hc
  | control k =>
      obtain ⟨p, next, hp, -, hcontrol, rfl⟩ := control_cases hstep
      cases next with
      | none =>
          have hbreaks := loop.breaks_of_none _ _ _ hcontrol
          rw [hgoes.2 k rfl] at hbreaks
          cases hbreaks
      | some next =>
          rw [turns.distance_polling hp, turns.distance_polling rfl]
          exact turns.control_lt hcontrol h.readable
  | writes | closes | ends | wait | waitFails => cases hturn

/-- A step of the command does not change how far it is. -/
theorem Waits.distance_le (turns : Turns loop) {e : ExecEvent κ ς} (h : Waits c s) (hturn : isTurn e = false)
    (hstep : loop.step s e = some s') : turns.distance c s' ≤ turns.distance c s := by
  obtain ⟨p, hp⟩ := h.polling
  cases step_goes hstep with
  | outside hphase _ _ _ _ => rw [turns.distance_polling hp, turns.distance_polling (hphase.trans hp)]
  | turns _ _ _ hturn'     => rw [hturn] at hturn'; cases hturn'
  | left _ _ _             => cases hturn
  | broken _ _ _           => cases hturn
  | waited hphase _ _      => rw [hp] at hphase; cases hphase
  | unwaited hphase _      => rw [hp] at hphase; cases hphase

/-- **What is in a pipe is read soon**: of six steps of the loop one reads it, whatever the command does meanwhile. -/
theorem reads_soon (turns : Turns loop) (hwaits : Waits c s) (hrun : Machine.Run loop.step s es s')
    (hgoes : ∀ e ∈ es, GoesOn loop e) (hread : ∀ count, .read c count ∉ es) : es.countP isTurn ≤ 5 := by
  obtain ⟨-, hle⟩ := hrun.countP_add_le (Waits c) (fun e => GoesOn loop e ∧ ∀ count, e ≠ .read c count) isTurn
    (turns.distance c) hwaits
    (fun _ _ _ h hQ hstep =>
      h.of_follows (h.polling_step hQ.1 hstep) (step_follows hstep) hQ.2 (hQ.1.1 c))
    (fun _ _ _ h hQ hstep hturn => h.distance_lt turns hQ.1 hQ.2 hturn hstep)
    (fun _ _ _ h _ hstep hturn => h.distance_le turns hturn hstep)
    (fun e he => ⟨hgoes e he, fun count heq => hread count (heq ▸ he)⟩)
  obtain ⟨p, hp⟩ := hwaits.polling
  have hrank := turns.rank_le c p
  rw [turns.distance_polling hp] at hle
  omega

/-! ## The loop ends -/

/-- No one can write any more. -/
def Closed (s : Exec φ ς) : Prop := ∀ c, (s.reader c).stream.isOpen = false

omit [DecidableEq φ] in
theorem Closed.readable (h : Closed s) (c : Channel) : (s.reader c).stream.readable = true :=
  Stream.readable_iff.mpr (.inr (h c))

theorem Closed.step {e : ExecEvent κ ς} (h : Closed s) (hstep : loop.step s e = some s') : Closed s' := by
  intro c
  have hfollows := step_follows (c := c) hstep
  cases hact : action c e with
  | none =>
      rw [hact] at hfollows
      simp only [Machine.Follows] at hfollows
      rw [hfollows]
      exact h c
  | some a =>
      rw [hact] at hfollows
      cases a with
      | put items =>
          obtain ⟨hopen, -⟩ := Pipe.put_cases hfollows
          rw [h c] at hopen
          cases hopen
      | close =>
          obtain ⟨hopen, -⟩ := Pipe.close_cases hfollows
          rw [h c] at hopen
          cases hopen
      | read count =>
          obtain ⟨-, -, hr⟩ := Pipe.read_cases hfollows
          rw [hr]
          exact h c
      | fail =>
          obtain ⟨-, hr⟩ := Pipe.fail_cases hfollows
          rw [hr]
          exact h c

/-- What is left to do at a pipe. -/
def Turns.cost (turns : Turns loop) (r : Reader UInt8) (c : Channel) (p : φ) : Nat :=
  if r.more then 6 * (r.stream.inside.length + 1) + turns.rank c p else 0

/-- What is left to do. -/
def Turns.left (turns : Turns loop) (s : Exec φ ς) : Nat :=
  match s.phase with
  | .polling p =>
      3 * (turns.cost (s.reader .stdout) .stdout p + turns.cost (s.reader .stderr) .stderr p) + turns.toHead p + 1
  | _ => 0

omit [DecidableEq φ] in
theorem Turns.left_polling (turns : Turns loop) {p : φ} (h : s.phase = .polling p) :
    turns.left s = 3 * (turns.cost (s.reader .stdout) .stdout p + turns.cost (s.reader .stderr) .stderr p)
      + turns.toHead p + 1 := by
  rw [left, h]

omit [DecidableEq φ] in
theorem Turns.cost_le (turns : Turns loop) (r : Reader UInt8) {p next : φ}
    (hrank : r.more = true → turns.rank c next < turns.rank c p) : turns.cost r c next ≤ turns.cost r c p := by
  unfold cost
  split
  · next hmore =>
      have hlt := hrank hmore
      omega
  · exact Nat.le_refl 0

omit [DecidableEq φ] in
theorem Turns.cost_lt (turns : Turns loop) {r : Reader UInt8} {p next : φ} (hmore : r.more = true)
    (hrank : turns.rank c next < turns.rank c p) : turns.cost r c next < turns.cost r c p := by
  rw [cost, cost, if_pos hmore, if_pos hmore]
  omega

omit [DecidableEq φ] in
/-- A read takes something out, or is the last one. -/
theorem Turns.cost_read (turns : Turns loop) {r r' : Reader UInt8} {count : Nat}
    (hstep : r.step (.read count) = some r') (p next : φ) : turns.cost r' c next < turns.cost r c p := by
  obtain ⟨hmore, hreturns, rfl⟩ := Pipe.read_cases hstep
  have hrank := turns.rank_le c next
  rw [cost, cost, if_pos hmore]
  rcases hreturns with ⟨hpos, hle⟩ | ⟨rfl, -⟩
  · rw [if_pos (decide_eq_true hpos)]
    simp only [Stream.take, List.length_drop]
    omega
  · simp

omit [DecidableEq φ] in
/-- A step that lowers one cost and raises none leaves less to do. -/
theorem Turns.left_lt (turns : Turns loop) {p next : φ} (hphase : s.phase = .polling p)
    (hphase' : s'.phase = .polling next)
    (hle : ∀ c, turns.cost (s'.reader c) c next ≤ turns.cost (s.reader c) c p)
    (hlt : turns.cost (s'.reader c) c next < turns.cost (s.reader c) c p) : turns.left s' < turns.left s := by
  have hhead := turns.toHead_le next
  have hout := hle .stdout
  have herr := hle .stderr
  rw [turns.left_polling hphase, turns.left_polling hphase']
  cases c with
  | stdout => omega
  | stderr => omega

/-- A step of the loop leaves less to do. -/
theorem Closed.left_lt (turns : Turns loop) {e : ExecEvent κ ς} (h : Closed s) (hgoes : GoesOn loop e)
    (hturn : isTurn e = true) (hstep : loop.step s e = some s') : turns.left s' < turns.left s := by
  cases e with
  | leave =>
      obtain ⟨hphase, -, rfl⟩ := leave_cases hstep
      rw [turns.left_polling hphase]
      exact Nat.succ_pos _
  | read c count =>
      obtain ⟨p, next, r, hp, hbranch, hr, rfl⟩ := inBranch_cases (read_cases hstep).2
      have hself : turns.cost (Function.update s.reader c r c) c next < turns.cost (s.reader c) c p := by
        rw [Function.update_self]
        exact turns.cost_read hr p next
      apply turns.left_lt hp rfl ?_ hself
      intro c'
      by_cases hc : c' = c
      · subst hc
        exact Nat.le_of_lt hself
      · show turns.cost (Function.update s.reader c r c') c' next ≤ _
        rw [Function.update_of_ne hc]
        exact turns.cost_le _ fun _ => turns.branch_lt hbranch (.inl hc)
  | readFails c => exact absurd rfl (hgoes.1 c)
  | skip c =>
      obtain ⟨p, taken, next, hp, hbranch, hhead, hskip, rfl⟩ := skip_cases hstep
      have hrank : ∀ c', (s.reader c').more = true → turns.rank c' next < turns.rank c' p := by
        intro c' hmore
        apply turns.branch_lt hbranch
        by_cases hc : c' = c
        · subst hc
          exact .inr (by simpa [hmore] using hskip)
        · exact .inl hc
      have hle : ∀ c', turns.cost (s.reader c') c' next ≤ turns.cost (s.reader c') c' p :=
        fun c' => turns.cost_le _ (hrank c')
      by_cases hmore : s.more
      · rcases hmore with hmore | hmore
        · exact turns.left_lt hp rfl hle (turns.cost_lt hmore (hrank .stdout hmore))
        · exact turns.left_lt hp rfl hle (turns.cost_lt hmore (hrank .stderr hmore))
      · -- the last branches of the last round
        have htoHead := turns.toHead_lt hbranch fun heq => hmore (hhead heq)
        have hout := hle .stdout
        have herr := hle .stderr
        rw [turns.left_polling hp, turns.left_polling rfl]
        simp only at hout herr ⊢
        omega
  | control k =>
      obtain ⟨p, next, hp, hhead, hcontrol, rfl⟩ := control_cases hstep
      cases next with
      | none =>
          rw [turns.left_polling hp]
          exact Nat.succ_pos _
      | some next =>
          have hrank : ∀ c, turns.rank c next < turns.rank c p :=
            fun c => turns.control_lt hcontrol (h.readable c)
          have hle : ∀ c, turns.cost (s.reader c) c next ≤ turns.cost (s.reader c) c p :=
            fun c => turns.cost_le _ fun _ => hrank c
          have hmore : ∃ c, (s.reader c).more = true := by
            rcases turns.control_more hcontrol with rfl | hmore
            · rcases hhead rfl with hmore | hmore
              · exact ⟨_, hmore⟩
              · exact ⟨_, hmore⟩
            · exact hmore
          obtain ⟨c, hc⟩ := hmore
          exact turns.left_lt hp rfl hle (turns.cost_lt hc (hrank c))
  | writes | closes | ends | wait | waitFails => cases hturn

/-- Nor does anything else give the loop more to do. -/
theorem Closed.left_le (turns : Turns loop) {e : ExecEvent κ ς} (h : Closed s) (hturn : isTurn e = false)
    (hstep : loop.step s e = some s') : turns.left s' ≤ turns.left s := by
  cases e with
  | ends status =>
      obtain ⟨-, rfl⟩ := ends_cases hstep
      exact Nat.le_refl _
  | writes c bytes =>
      obtain ⟨r, hr, -⟩ := atPipe_cases hstep
      obtain ⟨hopen, -⟩ := Pipe.put_cases hr
      rw [h c] at hopen
      cases hopen
  | closes c =>
      obtain ⟨r, hr, -⟩ := atPipe_cases hstep
      obtain ⟨hopen, -⟩ := Pipe.close_cases hr
      rw [h c] at hopen
      cases hopen
  | wait =>
      obtain ⟨status, -, -, rfl⟩ := wait_cases hstep
      cases hexit : loop.exitCode status <;> simp [Turns.left, outcome]
  | waitFails =>
      obtain ⟨-, rfl⟩ := waitFails_cases hstep
      simp [Turns.left, outcome]
  | leave | read | readFails | skip | control => cases hturn

/-- **The loop ends** once no one can write any more, after as many steps at most as what is still in the pipes
    allows. -/
theorem ends_soon (turns : Turns loop) (hclosed : Closed s) (hrun : Machine.Run loop.step s es s')
    (hgoes : ∀ e ∈ es, GoesOn loop e) : es.countP isTurn + turns.left s' ≤ turns.left s :=
  (hrun.countP_add_le Closed (GoesOn loop) isTurn turns.left hclosed
    (fun _ _ _ h _ hstep => h.step hstep)
    (fun _ _ _ h hQ hstep hturn => h.left_lt turns hQ hturn hstep)
    (fun _ _ _ h _ hstep hturn => h.left_le turns hturn hstep) hgoes).2

omit [DecidableEq φ] in
theorem Turns.left_le (turns : Turns loop) (s : Exec φ ς) :
    turns.left s
      ≤ 18 * ((s.reader .stdout).stream.inside.length + (s.reader .stderr).stream.inside.length) + 69 := by
  have hcost : ∀ c p, turns.cost (s.reader c) c p ≤ 6 * (s.reader c).stream.inside.length + 11 := by
    intro c p
    have hrank := turns.rank_le c p
    unfold cost
    split <;> omega
  unfold left
  split
  · next p _ =>
      have hout := hcost .stdout p
      have herr := hcost .stderr p
      have hhead := turns.toHead_le p
      omega
  · exact Nat.zero_le _

end Turns

/-! ## The two platforms -/

/-- The loop has a step to take. -/
def CanTurn {φ κ ς : Type} [DecidableEq φ] (loop : ExecLoop φ κ ς) (s : Exec φ ς) : Prop :=
  ∃ e, isTurn e = true ∧ GoesOn loop e ∧ (loop.step s e).isSome = true

/-- **The loop and the command never wait for each other.** -/
structure Drains {φ κ ς : Type} [DecidableEq φ] (loop : ExecLoop φ κ ς) : Prop where
  /-- The loop never blocks. -/
  goes_on : ∀ es s, Machine.Run loop.step loop.start es s → (∃ p, s.phase = .polling p) → CanTurn loop s
  /-- What is in a pipe, be it full, is read within six steps of the loop. -/
  reads_soon : ∀ es s s' c, Waits c s → Machine.Run loop.step s es s' → (∀ e ∈ es, GoesOn loop e) →
    (∀ count, .read c count ∉ es) → es.countP isTurn ≤ 5
  /-- The loop ends once no one can write any more. -/
  ends_soon : ∀ es s s', Closed s → Machine.Run loop.step s es s' → (∀ e ∈ es, GoesOn loop e) →
    es.countP isTurn
      ≤ 18 * ((s.reader .stdout).stream.inside.length + (s.reader .stderr).stream.inside.length) + 69

section Platforms

variable {φ κ ς : Type} [DecidableEq φ] {loop : ExecLoop φ κ ς} {s s' : Exec φ ς} {c : Channel}

theorem Turns.drains (turns : Turns loop)
    (hgoes : ∀ es s, Machine.Run loop.step loop.start es s → (∃ p, s.phase = .polling p) → CanTurn loop s) :
    Drains loop where
  goes_on := hgoes
  reads_soon _ _ _ _ hwaits hrun hgoes hread := ExecLoop.reads_soon turns hwaits hrun hgoes hread
  ends_soon es s s' hclosed hrun hgoes := by
    have hends := ExecLoop.ends_soon turns hclosed hrun hgoes
    have hleft := turns.left_le s
    omega

/-- A step that is no read of the pipe leaves it readable. -/
theorem readable_step {e : ExecEvent κ ς} (h : (s.reader c).stream.readable = true) (hstep : loop.step s e = some s')
    (hread : ∀ count, e ≠ .read c count) : (s'.reader c).stream.readable = true := by
  have hfollows := step_follows (c := c) hstep
  cases hact : action c e with
  | none =>
      rw [hact] at hfollows
      simp only [Machine.Follows] at hfollows
      rw [hfollows]
      exact h
  | some a =>
      rw [hact] at hfollows
      apply Pipe.readable_of_step h hfollows
      rintro count rfl
      rcases action_eq_some hact with ⟨_, -, ha⟩ | ⟨-, ha⟩ | ⟨count', he, -⟩ | ⟨-, ha⟩
      · cases ha
      · cases ha
      · exact hread count' he
      · cases ha

/-- In its branch, a pipe that is readable can be read. -/
theorem canTurn_read {p next : φ} (hp : s.phase = .polling p) (hbranch : loop.branch p c = some (true, next))
    (hmore : (s.reader c).more = true) (hreadable : (s.reader c).stream.readable = true)
    (hmax : loop.maxRead.all (1 ≤ ·) = true) : CanTurn loop s := by
  obtain ⟨count, hcount, hreturns⟩ := Stream.exists_returns hreadable
  have hall : loop.maxRead.all (count ≤ ·) = true := by
    cases hlimit : loop.maxRead with
    | none => rfl
    | some limit =>
        rw [hlimit] at hmax
        simp only [Option.all_some, decide_eq_true_eq] at hmax ⊢
        omega
  have hread : (s.reader c).step (.read count) = some _ := if_pos ⟨hmore, hreturns⟩
  refine ⟨.read c count, rfl, ⟨nofun, nofun⟩, ?_⟩
  simp only [step, hall, if_true, inBranch, hp, hbranch, atPipe, hread, Option.map_some, Option.isSome_some]

/-- Elsewhere it can be passed over. -/
theorem canTurn_skip {p next : φ} {taken : Bool} (hp : s.phase = .polling p)
    (hbranch : loop.branch p c = some (taken, next)) (hhead : p = loop.head → s.more)
    (hskip : ¬ (taken = true ∧ (s.reader c).more = true)) : CanTurn loop s := by
  refine ⟨.skip c, rfl, ⟨nofun, nofun⟩, ?_⟩
  simp only [step, hp, hbranch]
  rw [if_pos ⟨hhead, hskip⟩]
  rfl

/-- At its condition, the loop is left if there is no more. -/
theorem canTurn_leave (hp : s.phase = .polling loop.head) (hmore : ¬ s.more) : CanTurn loop s := by
  refine ⟨.leave, rfl, ⟨nofun, nofun⟩, ?_⟩
  simp only [step]
  rw [if_pos ⟨hp, hmore⟩]
  rfl

theorem canTurn_control {p : φ} {k : κ} {next : Option φ} (hp : s.phase = .polling p)
    (hhead : p = loop.head → s.more) (hcontrol : loop.control s.reader p k = some next)
    (hbreaks : loop.breaks k = false) : CanTurn loop s := by
  refine ⟨.control k, rfl, ⟨nofun, ?_⟩, ?_⟩
  · intro k' heq
    injection heq with heq
    exact heq ▸ hbreaks
  · simp only [step, hp]
    rw [if_pos hhead, hcontrol]
    rfl

end Platforms

/-! ### Linux -/

theorem linux_branch_cases {p next : LinuxPoll} {c : Channel} {taken : Bool}
    (h : linuxExecLoop.branch p c = some (taken, next)) :
    (∃ stderrSet, p = .selected taken stderrSet ∧ c = .stdout ∧ next = .stdoutDone stderrSet) ∨
      (p = .stdoutDone taken ∧ c = .stderr ∧ next = .looping) := by
  cases p with
  | looping => cases h
  | selected stdoutSet stderrSet =>
      cases c with
      | stdout =>
          injection h with h
          injection h with htaken hnext
          exact .inl ⟨stderrSet, by rw [htaken], rfl, hnext.symm⟩
      | stderr => cases h
  | stdoutDone stderrSet =>
      cases c with
      | stdout => cases h
      | stderr =>
          injection h with h
          injection h with htaken hnext
          exact .inr ⟨by rw [htaken], rfl, hnext.symm⟩

theorem linux_control_cases {r : Channel → Reader UInt8} {p next : LinuxPoll} {k : LinuxControl}
    (h : linuxExecLoop.control r p k = some (some next)) :
    p = .looping ∧ next = .selected (r .stdout).stream.readable (r .stderr).stream.readable := by
  cases p with
  | looping =>
      cases k with
      | select =>
          injection h with h
          injection h with h
          exact ⟨rfl, h.symm⟩
      | selectFails => cases h
  | selected => cases h
  | stdoutDone => cases h

/-- From `select` to the branch of a pipe are a step or two, and a round more if the pipe was too late for this
    `select`. -/
def linuxRank : Channel → LinuxPoll → Nat
  | .stdout, .looping        => 2
  | .stdout, .selected set _ => if set then 1 else 4
  | .stdout, .stdoutDone _   => 3
  | .stderr, .looping        => 3
  | .stderr, .selected _ set => if set then 2 else 5
  | .stderr, .stdoutDone set => if set then 1 else 4

/-- The steps that are left of a round. -/
def linuxToHead : LinuxPoll → Nat
  | .looping      => 0
  | .selected _ _ => 2
  | .stdoutDone _ => 1

theorem linuxRank_le (c : Channel) (p : LinuxPoll) : linuxRank c p ≤ 5 := by
  cases c <;> cases p <;> simp only [linuxRank] <;> first | decide | (split <;> decide)

def linuxTurns : Turns linuxExecLoop where
  rank := linuxRank
  rank_le := linuxRank_le
  toHead := linuxToHead
  toHead_le p := by cases p <;> simp [linuxToHead]
  toHead_lt h _ := by
    rcases linux_branch_cases h with ⟨stderrSet, rfl, -, rfl⟩ | ⟨rfl, -, rfl⟩
    · exact Nat.one_lt_two
    · exact Nat.one_pos
  branch_lt {p c taken next c'} h hc := by
    rcases linux_branch_cases h with ⟨stderrSet, rfl, rfl, rfl⟩ | ⟨rfl, rfl, rfl⟩
    · cases c' with
      | stdout => simp [linuxRank, hc.resolve_left (not_not.mpr rfl)]
      | stderr => cases stderrSet <;> simp [linuxRank]
    · cases c' with
      | stdout => simp [linuxRank]
      | stderr => simp [linuxRank, hc.resolve_left (not_not.mpr rfl)]
  control_lt {r p k next c} h hreadable := by
    obtain ⟨rfl, rfl⟩ := linux_control_cases h
    cases c <;> simp [linuxRank, hreadable]
  control_more h := .inl (linux_control_cases h).1

/-- What `FD_ISSET` says still holds where the loop acts on it. -/
def SetsReadable (s : Exec LinuxPoll (Option UInt8)) : Prop :=
  match s.phase with
  | .polling (.selected stdoutSet stderrSet) =>
      (stdoutSet = true → (s.reader .stdout).stream.readable = true) ∧
        (stderrSet = true → (s.reader .stderr).stream.readable = true)
  | .polling (.stdoutDone stderrSet) => stderrSet = true → (s.reader .stderr).stream.readable = true
  | _ => True

section Linux

variable {s s' : Exec LinuxPoll (Option UInt8)}

theorem SetsReadable.step {e : ExecEvent LinuxControl (Option UInt8)} (h : SetsReadable s)
    (hstep : linuxExecLoop.step s e = some s') : SetsReadable s' := by
  unfold SetsReadable at h ⊢
  -- a pipe that no read is of stays readable
  have hkeep : ∀ {c}, (∀ count, e ≠ .read c count) → (s.reader c).stream.readable = true →
      (s'.reader c).stream.readable = true := fun hread hr => readable_step hr hstep hread
  cases step_goes hstep with
  | outside hphase _ _ hturn _ =>
      have hread : ∀ c count, e ≠ .read c count := by
        rintro c count rfl
        cases hturn
      rw [hphase]
      split at h
      · exact ⟨fun hset => hkeep (hread _) (h.1 hset), fun hset => hkeep (hread _) (h.2 hset)⟩
      · exact fun hset => hkeep (hread _) (h hset)
      · trivial
  | left _ _ hs => subst hs; trivial
  | broken _ _ hs => subst hs; trivial
  | @waited status _ _ hs =>
      subst hs
      cases linuxExecLoop.exitCode status <;> trivial
  | unwaited _ hs => subst hs; trivial
  | turns hp _ _ hturn =>
      cases e with
      | read c count =>
          obtain ⟨p, next, r, hp, hbranch, -, rfl⟩ := inBranch_cases (read_cases hstep).2
          rw [hp] at h
          rcases linux_branch_cases hbranch with ⟨stderrSet, rfl, rfl, rfl⟩ | ⟨rfl, rfl, rfl⟩
          · exact fun hset => hkeep (by simp) (h.2 hset)
          · trivial
      | readFails c =>
          obtain ⟨p, next, r, hp, hbranch, -, rfl⟩ := inBranch_cases hstep
          rw [hp] at h
          rcases linux_branch_cases hbranch with ⟨stderrSet, rfl, rfl, rfl⟩ | ⟨rfl, rfl, rfl⟩
          · exact fun hset => hkeep (by simp) (h.2 hset)
          · trivial
      | skip c =>
          obtain ⟨p, taken, next, hp, hbranch, -, -, rfl⟩ := skip_cases hstep
          rw [hp] at h
          rcases linux_branch_cases hbranch with ⟨stderrSet, rfl, rfl, rfl⟩ | ⟨rfl, rfl, rfl⟩
          · exact h.2
          · trivial
      | control k =>
          obtain ⟨p, next, hp, -, hcontrol, rfl⟩ := control_cases hstep
          cases next with
          | none => trivial
          | some next =>
              obtain ⟨rfl, rfl⟩ := linux_control_cases hcontrol
              exact ⟨id, id⟩
      | leave =>
          obtain ⟨-, -, rfl⟩ := leave_cases hstep
          trivial
      | writes | closes | ends | wait | waitFails => cases hturn

theorem setsReadable_run {es : List (ExecEvent LinuxControl (Option UInt8))}
    (hrun : Machine.Run linuxExecLoop.step linuxExecLoop.start es s) : SetsReadable s :=
  hrun.invariant (fun _ s => SetsReadable s) (by trivial) (fun _ _ _ _ h hstep => h.step hstep)

/-- The loop never blocks: it reads where there is something, and passes over where there is not. -/
theorem linux_goes_on {es : List (ExecEvent LinuxControl (Option UInt8))}
    (hrun : Machine.Run linuxExecLoop.step linuxExecLoop.start es s) (hpolling : ∃ p, s.phase = .polling p) :
    CanTurn linuxExecLoop s := by
  obtain ⟨p, hp⟩ := hpolling
  have hsets := setsReadable_run hrun
  rw [SetsReadable, hp] at hsets
  cases p with
  | looping =>
      by_cases hmore : s.more
      · exact canTurn_control (k := .select) hp (fun _ => hmore) rfl rfl
      · exact canTurn_leave hp hmore
  | selected stdoutSet stderrSet =>
      by_cases htaken : stdoutSet = true ∧ (s.reader .stdout).more = true
      · obtain ⟨rfl, hmore⟩ := htaken
        exact canTurn_read hp rfl hmore (hsets.1 rfl) (by decide)
      · exact canTurn_skip (c := .stdout) hp rfl nofun htaken
  | stdoutDone stderrSet =>
      by_cases htaken : stderrSet = true ∧ (s.reader .stderr).more = true
      · obtain ⟨rfl, hmore⟩ := htaken
        exact canTurn_read hp rfl hmore (hsets rfl) (by decide)
      · exact canTurn_skip (c := .stderr) hp rfl nofun htaken

end Linux

/-! ### Windows -/

theorem win32_branch_cases {p next : Win32Poll} {c : Channel} {taken : Bool}
    (h : win32ExecLoop.branch p c = some (taken, next)) :
    taken = true ∧ ((p = .looping ∧ c = .stdout ∧ next = .stdoutDone) ∨
      (p = .stdoutDone ∧ c = .stderr ∧ next = .looping)) := by
  cases p <;> cases c <;> cases h
  · exact ⟨rfl, .inl ⟨rfl, rfl, rfl⟩⟩
  · exact ⟨rfl, .inr ⟨rfl, rfl, rfl⟩⟩

theorem win32_control_cases {r : Channel → Reader UInt8} {p : Win32Poll} {next : Option Win32Poll} {c : Channel}
    (h : win32ExecLoop.control r p (.idle c) = some next) :
    win32ExecLoop.branch p c = some (true, next.getD p) ∧ next.isSome ∧ (r c).more = true ∧
      ¬ (r c).stream.readable = true := by
  cases p <;> cases c <;> simp only [win32ExecLoop, reduceCtorEq] at h
  all_goals
    obtain ⟨⟨hmore, hempty⟩, h⟩ := Option.ite_none_right_eq_some.mp h
    cases h
    exact ⟨rfl, rfl, hmore, hempty⟩

/-- The branch of a pipe is the next, or the one behind. -/
def win32Rank : Channel → Win32Poll → Nat
  | .stdout, .looping    => 1
  | .stdout, .stdoutDone => 2
  | .stderr, .looping    => 2
  | .stderr, .stdoutDone => 1

/-- Another pipe's branch brings the own one nearer. -/
theorem win32Rank_lt {p next : Win32Poll} {c c' : Channel} {taken : Bool}
    (h : win32ExecLoop.branch p c = some (taken, next)) (hc : c' ≠ c) : win32Rank c' next < win32Rank c' p := by
  obtain ⟨-, ⟨rfl, rfl, rfl⟩ | ⟨rfl, rfl, rfl⟩⟩ := win32_branch_cases h <;> cases c' <;> simp [win32Rank] at hc ⊢

def win32Turns : Turns win32ExecLoop where
  rank := win32Rank
  rank_le c p := by cases c <;> cases p <;> decide
  toHead p := if p = .looping then 0 else 1
  toHead_le p := by cases p <;> decide
  toHead_lt h hp := by
    obtain ⟨-, ⟨rfl, -⟩ | ⟨rfl, -, rfl⟩⟩ := win32_branch_cases h
    · exact absurd rfl hp
    · decide
  branch_lt h hc := by
    refine win32Rank_lt h (hc.resolve_right ?_)
    rw [(win32_branch_cases h).1]
    exact nofun
  control_lt {r p k next c} h hreadable := by
    obtain ⟨c'⟩ := k
    obtain ⟨hbranch, -, -, hempty⟩ := win32_control_cases h
    apply win32Rank_lt hbranch
    rintro rfl
    exact hempty hreadable
  control_more {r p k next} h := by
    obtain ⟨c'⟩ := k
    exact .inr ⟨c', (win32_control_cases h).2.2.1⟩

section Win32

variable {s : Exec Win32Poll UInt32}

/-- In the branch of a pipe the loop reads, passes over, or finds nothing. -/
theorem win32_branch {c : Channel} {p next : Win32Poll} (hp : s.phase = .polling p)
    (hbranch : win32ExecLoop.branch p c = some (true, next)) (hhead : p = win32ExecLoop.head → s.more)
    (hidle : (s.reader c).more = true → (s.reader c).stream.readable = false →
      win32ExecLoop.control s.reader p (.idle c) = some (some next)) : CanTurn win32ExecLoop s := by
  by_cases hmore : (s.reader c).more = true
  · by_cases hreadable : (s.reader c).stream.readable = true
    · exact canTurn_read hp hbranch hmore hreadable rfl
    · exact canTurn_control hp hhead (hidle hmore (Bool.not_eq_true _ ▸ hreadable)) rfl
  · exact canTurn_skip hp hbranch hhead fun hall => hmore hall.2

theorem win32_goes_on (hpolling : ∃ p, s.phase = .polling p) : CanTurn win32ExecLoop s := by
  obtain ⟨p, hp⟩ := hpolling
  cases p with
  | looping =>
      by_cases hmore : s.more
      · exact win32_branch (c := .stdout) hp rfl (fun _ => hmore) fun hm hr => if_pos ⟨hm, by simp [hr]⟩
      · exact canTurn_leave hp hmore
  | stdoutDone =>
      exact win32_branch (c := .stderr) hp rfl nofun fun hm hr => if_pos ⟨hm, by simp [hr]⟩

end Win32

end ExecLoop

end Hand2
