import Hand2.Fetch.Get
import Hand2.Library.Lockstep

/-!
# `Invite.UsersExist` — `github_users_exist`

Users are asked for in batches of 64, and a user counts as existing if the status of the request is below 400.
The requests of a batch are formatted from `users->elem[i]` where the results are written to `out[at + i]`, so
every batch asks for the users of the first one; and a request that was never answered has status zero. A url, or the
header with the token, that does not fit its buffer ends the program. What is left to hold is `githubUsersExist_iff`.
-/

namespace Hand2

/-- The HTTP status GitHub answers request `k` with, if it is for a url: none if the request cannot be created or
    gets no response. -/
abbrev Statuses := Nat → CString → Option Nat

/-- `"https://api.github.com/users/%s"`. -/
def userUrl (user : CString) : CString := CString.lit "https://api.github.com/users/" ++ user

/-- `worker->status`: the worker is cleared before its request. -/
def workerStatus (statuses : Statuses) (k : Nat) (url : CString) : Nat := (statuses k url).getD 0

/-- `github_users_exist`: the array `out`. -/
def githubUsersExist (statuses : Statuses) (users : List CString) (githubToken : CString) :
    Except Fault (Nat → Int) :=
  Lockstep.batches maxWorker users.length
    (fun start workers out => do
      -- `users->elem[i]`, whatever batch it is
      let urls ← (List.range workers).mapM (fun i => assignGithubGet githubToken (userUrl (elem users i)))
      .ok (Lockstep.fill (fun k _ => if workerStatus statuses k (elem urls (k - start)) < 400 then 1 else 0)
        start workers out))
    (fun _ => 0)

/-! ## The function, user by user -/

section Users

variable (statuses : Statuses) (users : List CString) (githubToken : CString)

/-- The url request `k` is made for. -/
def requestUrl (k : Nat) : CString := userUrl (elem users (k % maxWorker))

/-- What `out[k]` becomes. -/
def existFlag (k : Nat) : Int := if workerStatus statuses k (requestUrl users k) < 400 then 1 else 0

/-- The texts of request `k` fit their buffers. -/
def RequestFits (k : Nat) : Prop := GetFits githubToken (requestUrl users k)

instance (k : Nat) : Decidable (RequestFits users githubToken k) :=
  inferInstanceAs (Decidable (GetFits githubToken (requestUrl users k)))

/-- What the loop body comes to. -/
def usersBatch (start workers : Nat) (out : Nat → Int) : Except Fault (Nat → Int) :=
  if ∀ i < workers, RequestFits users githubToken (start + i) then
    .ok (Lockstep.fill (fun k _ => existFlag statuses users k) start workers out)
  else .error .exit

/-- A batch starts at a multiple of 64 and asks for the first users. -/
theorem usersBatch_eq (b : Nat) {workers : Nat} (hworkers : workers ≤ maxWorker) (out : Nat → Int) :
    (do
      let urls ← (List.range workers).mapM (fun i => assignGithubGet githubToken (userUrl (elem users i)))
      .ok (Lockstep.fill
        (fun k _ => if workerStatus statuses k (elem urls (k - maxWorker * b)) < 400 then 1 else 0)
        (maxWorker * b) workers out) : Except Fault (Nat → Int))
      = usersBatch statuses users githubToken (maxWorker * b) workers out := by
  unfold usersBatch
  have hurl : ∀ i < workers, requestUrl users (maxWorker * b + i) = userUrl (elem users i) := by
    intro i hi
    unfold requestUrl
    rw [Nat.mul_add_mod, Nat.mod_eq_of_lt (by omega)]
  obtain ⟨hok, hexit⟩ := Loops.mapM_checks (l := List.range workers)
    (fun i (h : GetFits githubToken (userUrl (elem users i))) => assignGithubGet_ok h)
    (fun i h => assignGithubGet_exit h)
  by_cases hfit : ∀ i < workers, RequestFits users githubToken (maxWorker * b + i)
  · have hfits : ∀ i ∈ List.range workers, GetFits githubToken (userUrl (elem users i)) := by
      intro i hi
      have hi' := List.mem_range.mp hi
      rw [← hurl i hi']
      exact hfit i hi'
    rw [if_pos hfit, hok hfits]
    show Except.ok _ = Except.ok _
    rw [Lockstep.fill_eq, Lockstep.fill_eq]
    congr 1
    funext k
    by_cases hk : maxWorker * b ≤ k ∧ k < maxWorker * b + workers
    · obtain ⟨i, rfl⟩ := Nat.exists_eq_add_of_le hk.1
      have hi : i < workers := by omega
      have helem : elem ((List.range workers).map (fun i => userUrl (elem users i))) i = userUrl (elem users i) := by
        simp [elem, List.getD, hi]
      rw [if_pos hk, if_pos hk, Nat.add_sub_cancel_left, helem, existFlag, hurl i hi]
    · rw [if_neg hk, if_neg hk]
  · have hlong : ∃ i ∈ List.range workers, ¬ GetFits githubToken (userUrl (elem users i)) := by
      push Not at hfit
      obtain ⟨i, hi, hlong⟩ := hfit
      unfold RequestFits at hlong
      rw [hurl i hi] at hlong
      exact ⟨i, List.mem_range.mpr hi, hlong⟩
    rw [if_neg hfit, hexit hlong]
    rfl

/-- **The function, user by user.** -/
theorem githubUsersExist_eq :
    ((∀ k < users.length, RequestFits users githubToken k) →
      githubUsersExist statuses users githubToken
        = .ok (fun k => if k < users.length then existFlag statuses users k else 0)) ∧
    ((∃ k < users.length, ¬ RequestFits users githubToken k) →
      githubUsersExist statuses users githubToken = .error .exit) := by
  have hbatch : Lockstep.BatchBody users.length Fault.exit (RequestFits users githubToken) (existFlag statuses users)
      (fun _ => 0) (usersBatch statuses users githubToken) := by
    constructor
    · intro start workers out _ _ _ _ hgood
      unfold usersBatch
      rw [if_pos (fun i hi => hgood (start + i) (by omega) (by omega)), Lockstep.fill_eq]
    · rintro start workers out _ _ ⟨k, hk1, hk2, hbad⟩
      apply if_neg
      intro hall
      obtain ⟨i, rfl⟩ := Nat.exists_eq_add_of_le hk1
      exact hbad (hall i (by omega))
  unfold githubUsersExist
  rw [Lockstep.batches_congr (fun b => funext fun out =>
    usersBatch_eq statuses users githubToken b (Nat.min_le_right (users.length - maxWorker * b) _) out)]
  exact Lockstep.batches_eq maxWorker_pos hbatch

end Users

/-! ## Answers for the right user -/

/-- A status of the 2xx class. -/
def IsSuccess (status : Nat) : Prop := 200 ≤ status ∧ status < 300

/-- Request `k` was for user `k`'s own url, and GitHub answered it with a success status. -/
def Confirmed (statuses : Statuses) (users : List CString) (k : Nat) : Prop :=
  requestUrl users k = userUrl (elem users k) ∧
    ∃ status, statuses k (requestUrl users k) = some status ∧ IsSuccess status

/-- The request of user `k` is answered, in one of two ways: with an error, or with a success that is for a user of
    the same name. -/
def AnswerDecides (statuses : Statuses) (users : List CString) (k : Nat) : Prop :=
  ∃ status, statuses k (requestUrl users k) = some status ∧
    (400 ≤ status ∨ (IsSuccess status ∧ elem users (k % maxWorker) = elem users k))

/-- Urls differ where users do. -/
theorem userUrl_inj {a b : CString} : userUrl a = userUrl b ↔ a = b := by
  constructor
  · intro h
    apply CString.ext
    exact List.append_cancel_left (congrArg CString.bytes h)
  · intro h
    rw [h]

/-- One user. -/
theorem existFlag_iff (statuses : Statuses) (users : List CString) (k : Nat) :
    (existFlag statuses users k = 1 ↔ Confirmed statuses users k) ↔ AnswerDecides statuses users k := by
  unfold Confirmed AnswerDecides existFlag workerStatus
  rw [show (requestUrl users k = userUrl (elem users k)) = (elem users (k % maxWorker) = elem users k) from
    propext userUrl_inj]
  cases h : statuses k (requestUrl users k) with
  | none => simp
  | some status =>
      simp only [Option.getD_some, Option.some.injEq, exists_eq_left', IsSuccess]
      by_cases herror : status < 400
      -- the flag is set: rightly so for a 2xx status and the user's own url
      · simp only [herror, if_true, true_iff]
        constructor
        · rintro ⟨hname, hok⟩
          exact .inr ⟨hok, hname⟩
        · rintro (hbad | ⟨hok, hname⟩)
          · omega
          · exact ⟨hname, hok⟩
      -- the flag is clear, and no success status is an error: right for any url
      · simp only [herror, if_false]
        constructor
        · intro _
          exact .inl (by omega)
        · intro _
          constructor
          · intro hone
            exact absurd hone (by decide)
          · rintro ⟨-, hok⟩
            omega

/-- **When the flags are those of the right users**: if the texts of a request do not fit their buffers, which ends the
    program, or else if every request is answered, with an error or with a success for a user of the same name. -/
theorem githubUsersExist_iff (statuses : Statuses) (users : List CString) (githubToken : CString) :
    (∀ out, githubUsersExist statuses users githubToken = .ok out →
      ∀ k < users.length, (out k = 1 ↔ Confirmed statuses users k)) ↔
    ((∀ k < users.length, RequestFits users githubToken k) → ∀ k < users.length, AnswerDecides statuses users k) := by
  by_cases hfit : ∀ k < users.length, RequestFits users githubToken k
  · rw [(githubUsersExist_eq statuses users githubToken).1 hfit]
    constructor
    · intro h _ k hk
      rw [← existFlag_iff, ← h _ rfl k hk, if_pos hk]
    · rintro h out hout k hk
      injection hout with hout
      subst hout
      simp only [if_pos hk]
      exact (existFlag_iff statuses users k).mpr (h hfit k hk)
  · have hexit := (githubUsersExist_eq statuses users githubToken).2 (by push Not at hfit; exact hfit)
    constructor
    · intro _ hall
      exact absurd hall hfit
    · intro _ out hout
      rw [hexit] at hout
      cases hout

/-- **A user that GitHub gives no answer about counts as existing.** -/
theorem githubUsersExist_counterexample :
    ∃ out, githubUsersExist (fun _ _ => none) [CString.lit "no-such-user"] (CString.lit "ghp_x") = .ok out ∧
      out 0 = 1 ∧ ¬ Confirmed (fun _ _ => none) [CString.lit "no-such-user"] 0 := by
  have hok := (githubUsersExist_eq (fun _ _ => none) [CString.lit "no-such-user"] (CString.lit "ghp_x")).1
    (by decide +kernel)
  refine ⟨_, hok, by decide, ?_⟩
  rintro ⟨-, status, hstatus, -⟩
  cases hstatus

end Hand2
