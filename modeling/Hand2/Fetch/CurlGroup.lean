import Mathlib.Data.Finset.Card
import Mathlib.Data.Finset.Range
import Hand2.Fetch.Get
import Hand2.Library.Runs

/-!
# `Fetch.CurlGroup` — requests that are sent together

A group has a worker for every request. `complete_all_works` drives libcurl, and libcurl calls `curl_write_func` for any
worker, in any order, with any part of its response, until no transfer is left or one of its own calls fails.
`end_curl_group` then reads libcurl's messages, and says whether the requests went through.

`Fetch.Batched` and its like take the response of a worker as given by its place and its url; that is what is shown
here (`GroupInv.response`): other transfers never touch it.
-/

namespace Hand2.Fetch

/-- A request; a type and data, if it is not a `GET`. -/
structure CurlRequest where
  url : CString
  header : CString
  post : Option (CString × CString)
  deriving DecidableEq

/-- How libcurl answers the calls of `assign_work`. -/
structure AssignAnswers where
  /-- `curl_easy_init`. -/
  easyInit : Bool
  /-- `curl_slist_append`: no null pointer. -/
  appended : Bool
  /-- All of `curl_easy_setopt`. -/
  setopt : Bool
  /-- `curl_multi_add_handle`. -/
  added : Bool
  deriving DecidableEq

/-- `CurlWorker`: of its handle and header list, whether there is one. -/
structure CurlWorker where
  status : Int
  handle : Bool
  headerList : Bool
  response : List UInt8

def CurlWorker.zero : CurlWorker := ⟨0, false, false, []⟩

/-- What libcurl knows of the easy handle of a worker: its last response code, and how it ended. -/
inductive Transfer where
  | none
  | running (request : CurlRequest) (code : Int)
  | done (request : CurlRequest) (code : Int) (result : Nat)
  deriving DecidableEq

/-- `CurlMsg`. -/
structure CurlMsg where
  /-- It is `CURLMSG_DONE`. -/
  done : Bool
  result : Nat
  deriving DecidableEq

/-- How far a group is. -/
inductive GroupPhase where
  /-- Before `complete_all_works`. -/
  | assigning
  /-- In `curl_multi_perform`. -/
  | performing
  /-- In `curl_multi_poll`. -/
  | polling
  /-- Behind `complete_all_works`. -/
  | completed
  /-- Behind `end_curl_group`. -/
  | ended (success : Bool)
  deriving DecidableEq

/-- `CurlGroup`, and what libcurl holds for it. -/
structure CurlGroup where
  handle : Bool
  workerCount : Nat
  worker : Nat → CurlWorker
  transfer : Nat → Transfer
  messages : List CurlMsg
  /-- How many easy handles there are, and how many header lists. -/
  easyHandles : Int
  headerLists : Int
  phase : GroupPhase

/-- `begin_curl_group`: the answer of `curl_multi_init` is the handle. -/
def beginCurlGroup (handle : Bool) (workerCount : Nat) : CurlGroup :=
  ⟨handle, workerCount, fun _ => .zero, fun _ => .none, [], 0, 0, .assigning⟩

/-- A step of a group, or of libcurl in `curl_multi_perform`. -/
inductive GroupEvent where
  | assign (index : Nat) (request : CurlRequest) (a : AssignAnswers)
  | complete
  | receives (index : Nat) (code : Int)
  /-- `curl_write_func` is called. -/
  | writes (index : Nat) (data : List UInt8)
  | finishes (index : Nat) (result : Nat)
  /-- `curl_multi_perform` returns. -/
  | perform (ok : Bool)
  /-- `curl_multi_poll` returns. -/
  | poll (ok : Bool)
  | close
  deriving DecidableEq

namespace CurlGroup

variable (s : CurlGroup)

/-- `assign_work`. -/
def assignWork (index : Nat) (request : CurlRequest) (a : AssignAnswers) : CurlGroup :=
  if s.handle ∧ a.easyInit then
    let lists := if a.appended then s.headerLists + 1 else s.headerLists
    let worker := { s.worker index with headerList := a.appended }
    if a.setopt ∧ a.added then
      { s with
        worker := Function.update s.worker index { worker with handle := true }
        transfer := Function.update s.transfer index (.running request 0)
        easyHandles := s.easyHandles + 1
        headerLists := lists }
    else
      -- the easy handle is cleaned up; the header list stays with the worker
      { s with worker := Function.update s.worker index worker, headerLists := lists }
  else s

/-- A transfer that still runs. -/
def Transfer.runs : Transfer → Bool
  | .running _ _ => true
  | _            => false

/-- `still_running`. -/
def stillRunning : Nat := (List.range s.workerCount).countP fun i => Transfer.runs (s.transfer i)

/-- `CURLINFO_RESPONSE_CODE`. -/
def Transfer.code : Transfer → Int
  | .none             => 0
  | .running _ code   => code
  | .done _ code _    => code

/-- `curl_easy_getinfo` of a worker; without a handle it writes nothing. -/
def readStatus (i : Nat) : CurlWorker :=
  if (s.worker i).handle then { s.worker i with status := Transfer.code (s.transfer i) } else s.worker i

/-- The second half of `complete_all_works`. -/
def leaveLoop : CurlGroup :=
  { s with worker := fun i => if i < s.workerCount then s.readStatus i else s.worker i, phase := .completed }

/-- The loop of `end_curl_group` that reads the messages. -/
def readMessages : List CurlMsg → Bool
  | []              => true
  | message :: rest => if ¬ message.done ∨ message.result ≠ 0 then false else readMessages rest

/-- `get_response`. -/
def getResponse (i : Nat) : CString := CString.ofBytes (s.worker i).response

/-- The workers of a group that have something. -/
def having (p : CurlWorker → Bool) : Finset Nat := (Finset.range s.workerCount).filter fun i => p (s.worker i)

/-- `end_curl_group`. -/
def endCurlGroup : CurlGroup :=
  if s.handle then
    { s with
      worker := fun _ => .zero
      transfer := fun _ => .none
      messages := []
      easyHandles := s.easyHandles - (s.having CurlWorker.handle).card
      headerLists := s.headerLists - (s.having CurlWorker.headerList).card
      phase := .ended (readMessages s.messages && decide (∀ i < s.workerCount, (s.worker i).handle = true)) }
  else { s with worker := fun _ => .zero, phase := .ended true }

end CurlGroup

open CurlGroup in
/-- A group from `begin_curl_group` to `end_curl_group`, with libcurl. -/
def curlGroupStep (s : CurlGroup) : GroupEvent → Option CurlGroup
  | .assign index request a =>
      if s.phase = .assigning ∧ index < s.workerCount then some (s.assignWork index request a) else none
  | .complete =>
      if s.phase = .assigning then some { s with phase := if s.handle then .performing else .completed } else none
  | .receives i code =>
      match s.phase, s.transfer i with
      | .performing, .running request _ =>
          some { s with transfer := Function.update s.transfer i (.running request code) }
      | _, _ => none
  | .writes i data =>
      match s.phase, s.transfer i with
      | .performing, .running _ _ =>
          some { s with
            worker := Function.update s.worker i { s.worker i with response := (s.worker i).response ++ data } }
      | _, _ => none
  | .finishes i result =>
      match s.phase, s.transfer i with
      | .performing, .running request code =>
          some { s with
            transfer := Function.update s.transfer i (.done request code result)
            messages := s.messages ++ [⟨true, result⟩] }
      | _, _ => none
  | .perform ok =>
      if s.phase = .performing then
        some (if ok ∧ s.stillRunning ≠ 0 then { s with phase := .polling } else s.leaveLoop)
      else none
  | .poll ok =>
      if s.phase = .polling then some (if ok then { s with phase := .performing } else s.leaveLoop) else none
  | .close => if s.phase = .completed then some s.endCurlGroup else none

/-! ## What a step does -/

namespace CurlGroup

/-- `end_curl_group` was not called. -/
def Live (s : CurlGroup) : Prop := ∀ success, s.phase ≠ .ended success

section Cases

variable {s s' : CurlGroup} {index : Nat}

theorem assign_cases {request : CurlRequest} {a : AssignAnswers}
    (h : curlGroupStep s (.assign index request a) = some s') :
    (s.phase = .assigning ∧ index < s.workerCount) ∧ s' = s.assignWork index request a := by
  obtain ⟨hguard, h⟩ := Option.ite_none_right_eq_some.mp h
  exact ⟨hguard, (Option.some.inj h).symm⟩

theorem complete_cases (h : curlGroupStep s .complete = some s') :
    s.phase = .assigning ∧ s' = { s with phase := if s.handle then .performing else .completed } := by
  obtain ⟨hguard, h⟩ := Option.ite_none_right_eq_some.mp h
  exact ⟨hguard, (Option.some.inj h).symm⟩

theorem receives_cases {code : Int} (h : curlGroupStep s (.receives index code) = some s') :
    s.phase = .performing ∧ ∃ request before, s.transfer index = .running request before ∧
      s' = { s with transfer := Function.update s.transfer index (.running request code) } := by
  simp only [curlGroupStep] at h
  split at h
  · next request before hphase hrunning => exact ⟨hphase, request, before, hrunning, (Option.some.inj h).symm⟩
  · cases h

theorem writes_cases {data : List UInt8} (h : curlGroupStep s (.writes index data) = some s') :
    s.phase = .performing ∧ (∃ request code, s.transfer index = .running request code) ∧
      s' = { s with
        worker := Function.update s.worker index
          { s.worker index with response := (s.worker index).response ++ data } } := by
  simp only [curlGroupStep] at h
  split at h
  · next request code hphase hrunning => exact ⟨hphase, ⟨request, code, hrunning⟩, (Option.some.inj h).symm⟩
  · cases h

theorem finishes_cases {result : Nat} (h : curlGroupStep s (.finishes index result) = some s') :
    s.phase = .performing ∧ ∃ request code, s.transfer index = .running request code ∧
      s' = { s with
        transfer := Function.update s.transfer index (.done request code result)
        messages := s.messages ++ [⟨true, result⟩] } := by
  simp only [curlGroupStep] at h
  split at h
  · next request code hphase hrunning => exact ⟨hphase, request, code, hrunning, (Option.some.inj h).symm⟩
  · cases h

theorem perform_cases {ok : Bool} (h : curlGroupStep s (.perform ok) = some s') :
    s.phase = .performing ∧
      ((ok = true ∧ s' = { s with phase := .polling }) ∨ ((ok = false ∨ s.stillRunning = 0) ∧ s' = s.leaveLoop)) := by
  obtain ⟨hguard, h⟩ := Option.ite_none_right_eq_some.mp h
  have h := Option.some.inj h
  refine ⟨hguard, ?_⟩
  split at h
  · next hon => exact .inl ⟨hon.1, h.symm⟩
  · next hoff =>
      refine .inr ⟨?_, h.symm⟩
      cases ok with
      | false => exact .inl rfl
      | true  => exact .inr (by simpa using hoff)

theorem poll_cases {ok : Bool} (h : curlGroupStep s (.poll ok) = some s') :
    s.phase = .polling ∧
      ((ok = true ∧ s' = { s with phase := .performing }) ∨ (ok = false ∧ s' = s.leaveLoop)) := by
  obtain ⟨hguard, h⟩ := Option.ite_none_right_eq_some.mp h
  have h := Option.some.inj h
  refine ⟨hguard, ?_⟩
  cases ok with
  | true  => exact .inl ⟨rfl, h.symm⟩
  | false => exact .inr ⟨rfl, h.symm⟩

theorem close_cases (h : curlGroupStep s .close = some s') : s.phase = .completed ∧ s' = s.endCurlGroup := by
  obtain ⟨hguard, h⟩ := Option.ite_none_right_eq_some.mp h
  exact ⟨hguard, (Option.some.inj h).symm⟩

/-- Behind `end_curl_group` nothing happens. -/
theorem live_of_step {e : GroupEvent} (h : curlGroupStep s e = some s') : s.Live := by
  intro success hended
  cases e with
  | assign index request a  => exact absurd (assign_cases h).1.1 (by simp [hended])
  | complete                => exact absurd (complete_cases h).1 (by simp [hended])
  | receives index code     => exact absurd (receives_cases h).1 (by simp [hended])
  | writes index data       => exact absurd (writes_cases h).1 (by simp [hended])
  | finishes index result   => exact absurd (finishes_cases h).1 (by simp [hended])
  | perform ok              => exact absurd (perform_cases h).1 (by simp [hended])
  | poll ok                 => exact absurd (poll_cases h).1 (by simp [hended])
  | close                   => exact absurd (close_cases h).1 (by simp [hended])

end Cases

/-! ## What a worker has -/

/-- The request gets as far as `curl_multi_add_handle`, and that succeeds. -/
def AssignAnswers.sends (a : AssignAnswers) : Bool := a.easyInit && a.setopt && a.added

/-- A request of worker `i` was added to the group. -/
def Sent (i : Nat) (es : List GroupEvent) : Prop := ∃ request a, .assign i request a ∈ es ∧ AssignAnswers.sends a = true

/-- What was written for worker `i`. -/
def written (i : Nat) (es : List GroupEvent) : List UInt8 :=
  es.flatMap fun
    | .writes j data => if j = i then data else []
    | _              => []

/-- The response codes that worker `i` received. -/
def codes (i : Nat) (es : List GroupEvent) : List Int :=
  es.filterMap fun
    | .receives j code => if j = i then some code else none
    | _                => none

/-- libcurl's messages: one for each transfer that ended. -/
def messagesOf (es : List GroupEvent) : List CurlMsg :=
  es.filterMap fun
    | .finishes _ result => some ⟨true, result⟩
    | _                  => none

theorem written_concat (i : Nat) (es : List GroupEvent) (e : GroupEvent) :
    written i (es ++ [e]) = written i es ++ written i [e] := by
  simp [written]

theorem codes_concat (i : Nat) (es : List GroupEvent) (e : GroupEvent) :
    codes i (es ++ [e]) = codes i es ++ codes i [e] := by
  simp [codes]

theorem messagesOf_concat (es : List GroupEvent) (e : GroupEvent) :
    messagesOf (es ++ [e]) = messagesOf es ++ messagesOf [e] := by
  simp [messagesOf]

/-- What holds of a group that was not ended. -/
structure GroupInv (handle : Bool) (workerCount : Nat) (es : List GroupEvent) (s : CurlGroup) : Prop where
  handle_eq : s.handle = handle
  count_eq : s.workerCount = workerCount
  /-- Nothing is received before `complete_all_works`. -/
  quiet : s.phase = .assigning → ∀ i, codes i es = [] ∧ ∀ request code result, s.transfer i ≠ .done request code result
  /-- The response of a worker is its own. -/
  response : ∀ i, (s.worker i).response = written i es
  code : ∀ i, Transfer.code (s.transfer i) = (codes i es).getLastD 0
  messages : s.messages = messagesOf es
  handle_iff : ∀ i, (s.worker i).handle = true ↔ handle = true ∧ Sent i es
  transfer_iff : ∀ i, s.transfer i ≠ .none ↔ (s.worker i).handle = true
  index_lt : ∀ i, s.transfer i ≠ .none → i < workerCount
  done_iff : ∀ i result, .finishes i result ∈ es ↔ ∃ request code, s.transfer i = .done request code result
  /-- The statuses are read when the loop is left. -/
  status : ∀ i, (s.worker i).status = if s.phase = .completed then (codes i es).getLastD 0 else 0
  /-- Unless a call fails, no transfer runs any more. -/
  idle : s.phase = .completed → .perform false ∉ es → .poll false ∉ es →
    ∀ i request code, s.transfer i ≠ .running request code

variable {handle : Bool} {workerCount : Nat} {es : List GroupEvent} {s s' : CurlGroup} {e : GroupEvent}

theorem GroupInv.start : GroupInv handle workerCount [] (beginCurlGroup handle workerCount) where
  handle_eq := rfl
  count_eq := rfl
  quiet _ _ := ⟨rfl, nofun⟩
  response _ := rfl
  code _ := rfl
  messages := rfl
  handle_iff _ := ⟨nofun, fun ⟨_, _, _, hmem, _⟩ => nomatch hmem⟩
  transfer_iff _ := ⟨fun h => absurd rfl h, nofun⟩
  index_lt _ h := absurd rfl h
  done_iff _ _ := ⟨nofun, nofun⟩
  status _ := rfl
  idle _ _ _ _ _ _ := nofun

/-- Only `assign_work` adds requests. -/
theorem sent_concat {i : Nat} (he : ∀ index request a, e ≠ .assign index request a) :
    Sent i (es ++ [e]) ↔ Sent i es := by
  constructor
  · rintro ⟨request, a, hmem, hsends⟩
    rcases List.mem_append.mp hmem with hmem | hmem
    · exact ⟨request, a, hmem, hsends⟩
    · exact absurd (List.mem_singleton.mp hmem).symm (he i request a)
  · rintro ⟨request, a, hmem, hsends⟩
    exact ⟨request, a, List.mem_append_left _ hmem, hsends⟩

theorem sent_assign {i index : Nat} {request : CurlRequest} {a : AssignAnswers} :
    Sent i (es ++ [.assign index request a]) ↔ Sent i es ∨ (i = index ∧ AssignAnswers.sends a = true) := by
  constructor
  · rintro ⟨request', a', hmem, hsends⟩
    rcases List.mem_append.mp hmem with hmem | hmem
    · exact .inl ⟨request', a', hmem, hsends⟩
    · cases List.mem_singleton.mp hmem
      exact .inr ⟨rfl, hsends⟩
  · rintro (⟨request', a', hmem, hsends⟩ | ⟨rfl, hsends⟩)
    · exact ⟨request', a', List.mem_append_left _ hmem, hsends⟩
    · exact ⟨request, a, by simp, hsends⟩

section Assign

variable (s : CurlGroup) (index : Nat) (request : CurlRequest) (a : AssignAnswers)

/-- A request that is added. -/
theorem assignWork_transfer (i : Nat) :
    (s.assignWork index request a).transfer i
      = if s.handle = true ∧ AssignAnswers.sends a = true ∧ i = index then .running request 0 else s.transfer i := by
  unfold assignWork AssignAnswers.sends
  by_cases hi : i = index
  · subst hi
    split_ifs <;> simp_all
  · split_ifs <;> simp_all [Function.update_of_ne]

theorem assignWork_worker (i : Nat) :
    ((s.assignWork index request a).worker i).handle
        = ((s.worker i).handle || (s.handle && AssignAnswers.sends a && decide (i = index))) ∧
      ((s.assignWork index request a).worker i).status = (s.worker i).status ∧
      ((s.assignWork index request a).worker i).response = (s.worker i).response := by
  unfold assignWork AssignAnswers.sends
  by_cases hi : i = index
  · subst hi
    split_ifs <;> simp_all
  · split_ifs <;> simp_all [Function.update_of_ne]

theorem assignWork_rest :
    (s.assignWork index request a).handle = s.handle ∧ (s.assignWork index request a).workerCount = s.workerCount ∧
      (s.assignWork index request a).messages = s.messages ∧ (s.assignWork index request a).phase = s.phase := by
  unfold assignWork
  split_ifs <;> exact ⟨rfl, rfl, rfl, rfl⟩

end Assign

theorem GroupInv.assign {index : Nat} {request : CurlRequest} {a : AssignAnswers}
    (h : GroupInv handle workerCount es s) (hphase : s.phase = .assigning) (hlt : index < s.workerCount) :
    GroupInv handle workerCount (es ++ [.assign index request a]) (s.assignWork index request a) := by
  obtain ⟨hhandle, hcount, hmessages, hphase'⟩ := s.assignWork_rest index request a
  have hcodes : ∀ i, codes i (es ++ [.assign index request a]) = codes i es := by
    intro i
    rw [codes_concat]
    exact List.append_nil _
  have htransfer := s.assignWork_transfer index request a
  have hworker := s.assignWork_worker index request a
  have hassigning : (s.assignWork index request a).phase ≠ .completed := by rw [hphase', hphase]; nofun
  refine
    { handle_eq := hhandle.trans h.handle_eq
      count_eq := hcount.trans h.count_eq
      quiet := ?_, response := ?_, code := ?_, messages := ?_, handle_iff := ?_, transfer_iff := ?_, index_lt := ?_
      done_iff := ?_, status := ?_
      idle := fun hcompleted => absurd hcompleted hassigning }
  · intro _ i
    refine ⟨(hcodes i).trans (h.quiet hphase i).1, ?_⟩
    intro request' code result
    rw [htransfer i]
    split
    · nofun
    · exact (h.quiet hphase i).2 request' code result
  · intro i
    rw [(hworker i).2.2, h.response i, written_concat]
    exact (List.append_nil _).symm
  · intro i
    rw [hcodes i, htransfer i]
    split
    · rw [(h.quiet hphase i).1]
      rfl
    · exact h.code i
  · rw [hmessages, h.messages, messagesOf_concat]
    exact (List.append_nil _).symm
  · intro i
    rw [(hworker i).1, sent_assign, ← h.handle_eq, Bool.or_eq_true, h.handle_iff i, ← h.handle_eq]
    simp only [Bool.and_eq_true, decide_eq_true_eq]
    tauto
  · intro i
    rw [htransfer i, (hworker i).1]
    have hbefore := h.transfer_iff i
    split
    · next hsent => simp [hsent]
    · next hunsent =>
        rw [hbefore]
        simp only [Bool.or_eq_true, Bool.and_eq_true, decide_eq_true_eq]
        tauto
  · intro i hne
    rw [htransfer i] at hne
    split at hne
    · next hsent =>
        rw [hsent.2.2, ← h.count_eq]
        exact hlt
    · exact h.index_lt i hne
  · intro i result
    have hnone : ¬ ∃ request code, s.transfer i = .done request code result := by
      rintro ⟨request', code, hdone⟩
      exact (h.quiet hphase i).2 request' code result hdone
    rw [htransfer i]
    have hmem : GroupEvent.finishes i result ∉ es := fun hmem => hnone ((h.done_iff i result).mp hmem)
    split
    · simp [hmem]
    · simp only [List.mem_append, List.mem_singleton, reduceCtorEq, or_false]
      exact h.done_iff i result
  · intro i
    rw [(hworker i).2.1, h.status i, if_neg hassigning, if_neg (by rw [hphase]; nofun)]

/-- An event that is about no worker. -/
def GroupEvent.silent : GroupEvent → Bool
  | .complete  => true
  | .perform _ => true
  | .poll _    => true
  | _          => false

theorem silent_projections (he : GroupEvent.silent e = true) (i : Nat) :
    codes i (es ++ [e]) = codes i es ∧ written i (es ++ [e]) = written i es ∧ messagesOf (es ++ [e]) = messagesOf es ∧
      (Sent i (es ++ [e]) ↔ Sent i es) ∧ ∀ result, .finishes i result ∈ es ++ [e] ↔ .finishes i result ∈ es := by
  have hassign : ∀ index request a, e ≠ .assign index request a := by
    rintro index request a rfl
    cases he
  have hfinishes : ∀ result, e ≠ .finishes i result := by
    rintro result rfl
    cases he
  refine ⟨?_, ?_, ?_, sent_concat hassign, ?_⟩
  · cases e <;> first | exact (codes_concat ..).trans (List.append_nil _) | cases he
  · cases e <;> first | exact (written_concat ..).trans (List.append_nil _) | cases he
  · cases e <;> first | exact (messagesOf_concat ..).trans (List.append_nil _) | cases he
  · intro result
    rw [List.mem_append, List.mem_singleton, or_iff_left (Ne.symm (hfinishes result))]

/-- A step that changes no more than the phase: the loop goes on, or without a handle is not entered. -/
theorem GroupInv.phase {p : GroupPhase} (h : GroupInv handle workerCount es s) (he : GroupEvent.silent e = true)
    (hp : p ≠ .assigning) (hbefore : s.phase ≠ .completed) (hnone : p = .completed → ∀ i, s.transfer i = .none) :
    GroupInv handle workerCount (es ++ [e]) { s with phase := p } where
  handle_eq := h.handle_eq
  count_eq := h.count_eq
  quiet hassigning := absurd hassigning hp
  response i := by rw [(silent_projections he i).2.1, h.response i]
  code i := by rw [(silent_projections he i).1, h.code i]
  messages := by rw [(silent_projections he 0).2.2.1, h.messages]
  handle_iff i := by rw [(silent_projections he i).2.2.2.1, h.handle_iff i]
  transfer_iff := h.transfer_iff
  index_lt := h.index_lt
  done_iff i result := by rw [(silent_projections he i).2.2.2.2 result, h.done_iff i result]
  status i := by
    show (s.worker i).status = if p = .completed then _ else 0
    rw [h.status i, if_neg hbefore, (silent_projections he i).1]
    split
    · next hcompleted =>
        rw [← h.code i, hnone hcompleted i]
        rfl
    · rfl
  idle hcompleted _ _ i request code hrunning := by
    rw [hnone hcompleted i] at hrunning
    cases hrunning

/-- What a worker has behind the loop. -/
theorem leaveLoop_worker (s : CurlGroup) (i : Nat) :
    (s.leaveLoop.worker i).handle = (s.worker i).handle ∧ (s.leaveLoop.worker i).response = (s.worker i).response ∧
      (s.leaveLoop.worker i).status
        = if i < s.workerCount ∧ (s.worker i).handle = true then Transfer.code (s.transfer i)
          else (s.worker i).status := by
  unfold leaveLoop readStatus
  dsimp only
  split_ifs <;> simp_all

theorem leaveLoop_headerList (s : CurlGroup) (i : Nat) :
    (s.leaveLoop.worker i).headerList = (s.worker i).headerList := by
  unfold leaveLoop readStatus
  dsimp only
  split_ifs <;> rfl

/-- The loop is left. -/
theorem GroupInv.leave (h : GroupInv handle workerCount es s) (he : GroupEvent.silent e = true)
    (hbefore : s.phase ≠ .completed)
    (hidle : .perform false ∉ es ++ [e] → .poll false ∉ es ++ [e] →
      ∀ i request code, s.transfer i ≠ .running request code) :
    GroupInv handle workerCount (es ++ [e]) s.leaveLoop where
  handle_eq := h.handle_eq
  count_eq := h.count_eq
  quiet := nofun
  response i := by rw [(s.leaveLoop_worker i).2.1, (silent_projections he i).2.1, h.response i]
  code i := by rw [(silent_projections he i).1, ← h.code i, leaveLoop]
  messages := by rw [(silent_projections he 0).2.2.1, ← h.messages, leaveLoop]
  handle_iff i := by rw [(s.leaveLoop_worker i).1, (silent_projections he i).2.2.2.1, h.handle_iff i]
  transfer_iff i := by
    rw [(s.leaveLoop_worker i).1]
    exact h.transfer_iff i
  index_lt := h.index_lt
  done_iff i result := by
    rw [(silent_projections he i).2.2.2.2 result]
    exact h.done_iff i result
  status i := by
    have hphase : s.leaveLoop.phase = .completed := rfl
    rw [if_pos hphase, (s.leaveLoop_worker i).2.2, (silent_projections he i).1, ← h.code i, h.status i, if_neg hbefore]
    -- a worker that was not read has no transfer, so no code either
    split
    · rfl
    · next hunread =>
        have hnone : s.transfer i = .none := by
          by_contra hsome
          exact hunread ⟨h.count_eq ▸ h.index_lt i hsome, (h.transfer_iff i).mp hsome⟩
        rw [hnone]
        rfl
  idle _ := hidle

/-- `still_running` is zero. -/
theorem not_running_of_stillRunning (h : GroupInv handle workerCount es s) (hstill : s.stillRunning = 0) :
    ∀ i request code, s.transfer i ≠ .running request code := by
  intro i request code hrunning
  have hlt : i < s.workerCount := h.count_eq ▸ h.index_lt i (by rw [hrunning]; nofun)
  have hnone := List.countP_eq_zero.mp hstill i (List.mem_range.mpr hlt)
  rw [hrunning] at hnone
  exact hnone rfl

/-- libcurl moves a running transfer on: to another code, or to its end. -/
theorem GroupInv.transfer {index : Nat} {request : CurlRequest} {before : Int} (next : Transfer)
    {messages : List CurlMsg} (h : GroupInv handle workerCount es s) (hphase : s.phase = .performing)
    (hrunning : s.transfer index = .running request before) (hnext : next ≠ .none)
    (hcode : ∀ i, Transfer.code (Function.update s.transfer index next i) = (codes i (es ++ [e])).getLastD 0)
    (hwritten : ∀ i, written i (es ++ [e]) = written i es) (hmessages : messages = messagesOf (es ++ [e]))
    (hsent : ∀ index request a, e ≠ .assign index request a)
    (hdone : ∀ i result, .finishes i result ∈ es ++ [e] ↔
      ∃ request code, Function.update s.transfer index next i = .done request code result) :
    GroupInv handle workerCount (es ++ [e])
      { s with transfer := Function.update s.transfer index next, messages := messages } := by
  have hnone : ∀ i, Function.update s.transfer index next i ≠ .none ↔ s.transfer i ≠ .none := by
    intro i
    by_cases hi : i = index
    · subst hi
      rw [Function.update_self, hrunning]
      exact iff_of_true hnext nofun
    · rw [Function.update_of_ne hi]
  refine
    { handle_eq := h.handle_eq, count_eq := h.count_eq
      quiet := fun hassigning => nomatch hphase.symm.trans hassigning
      response := fun i => (h.response i).trans (hwritten i).symm
      code := hcode, messages := hmessages
      handle_iff := fun i => (h.handle_iff i).trans (and_congr_right fun _ => (sent_concat hsent).symm)
      transfer_iff := fun i => (hnone i).trans (h.transfer_iff i)
      index_lt := fun i hsome => h.index_lt i ((hnone i).mp hsome)
      done_iff := hdone, status := ?_
      idle := fun hcompleted => nomatch hphase.symm.trans hcompleted }
  intro i
  have hlive : s.phase ≠ .completed := by rw [hphase]; nofun
  show (s.worker i).status = if s.phase = .completed then _ else 0
  rw [h.status i, if_neg hlive, if_neg hlive]

theorem GroupInv.receives {index : Nat} {code : Int} (h : GroupInv handle workerCount es s)
    (hstep : curlGroupStep s (.receives index code) = some s') :
    GroupInv handle workerCount (es ++ [.receives index code]) s' := by
  obtain ⟨hphase, request, before, hrunning, rfl⟩ := receives_cases hstep
  refine h.transfer (.running request code) hphase hrunning nofun ?_ ?_ ?_ nofun ?_
  · intro i
    rw [codes_concat]
    by_cases hi : i = index
    · subst hi
      simp [codes, Transfer.code]
    · rw [Function.update_of_ne hi, h.code i]
      simp [codes, Ne.symm hi]
  · intro i
    exact (written_concat ..).trans (List.append_nil _)
  · rw [messagesOf_concat, h.messages]
    exact (List.append_nil _).symm
  · intro i result
    rw [List.mem_append, List.mem_singleton, or_iff_left nofun, h.done_iff i result]
    by_cases hi : i = index
    · subst hi
      simp [hrunning]
    · rw [Function.update_of_ne hi]

theorem GroupInv.finishes {index result : Nat} (h : GroupInv handle workerCount es s)
    (hstep : curlGroupStep s (.finishes index result) = some s') :
    GroupInv handle workerCount (es ++ [.finishes index result]) s' := by
  obtain ⟨hphase, request, code, hrunning, rfl⟩ := finishes_cases hstep
  have hcodes : ∀ i, codes i (es ++ [.finishes index result]) = codes i es :=
    fun i => (codes_concat ..).trans (List.append_nil _)
  refine h.transfer (.done request code result) hphase hrunning nofun ?_ ?_ ?_ nofun ?_
  · intro i
    rw [hcodes i, ← h.code i]
    by_cases hi : i = index
    · subst hi
      rw [Function.update_self, hrunning]
      rfl
    · rw [Function.update_of_ne hi]
  · intro i
    exact (written_concat ..).trans (List.append_nil _)
  · rw [messagesOf_concat, h.messages]
    rfl
  · intro i result'
    rw [List.mem_append, List.mem_singleton, h.done_iff i result']
    by_cases hi : i = index
    · subst hi
      simp [hrunning, eq_comm]
    · rw [Function.update_of_ne hi]
      simp [hi]

theorem GroupInv.writes {index : Nat} {data : List UInt8} (h : GroupInv handle workerCount es s)
    (hstep : curlGroupStep s (.writes index data) = some s') :
    GroupInv handle workerCount (es ++ [.writes index data]) s' := by
  obtain ⟨hphase, -, rfl⟩ := writes_cases hstep
  have hcodes : ∀ i, codes i (es ++ [.writes index data]) = codes i es :=
    fun i => (codes_concat ..).trans (List.append_nil _)
  have hworker : ∀ i, (Function.update s.worker index
      { s.worker index with response := (s.worker index).response ++ data } i).handle = (s.worker i).handle ∧
      (Function.update s.worker index
        { s.worker index with response := (s.worker index).response ++ data } i).status = (s.worker i).status := by
    intro i
    by_cases hi : i = index
    · subst hi
      rw [Function.update_self]
      exact ⟨rfl, rfl⟩
    · rw [Function.update_of_ne hi]
      exact ⟨rfl, rfl⟩
  refine
    { handle_eq := h.handle_eq, count_eq := h.count_eq
      quiet := fun hassigning => nomatch hphase.symm.trans hassigning
      response := ?_
      code := fun i => (h.code i).trans (by rw [hcodes i])
      messages := h.messages.trans ((messagesOf_concat ..).trans (List.append_nil _)).symm
      handle_iff := ?_, transfer_iff := ?_, index_lt := h.index_lt, done_iff := ?_, status := ?_
      idle := fun hcompleted => nomatch hphase.symm.trans hcompleted }
  · intro i
    rw [written_concat]
    by_cases hi : i = index
    · subst hi
      simp [h.response, written]
    · simp [Function.update_of_ne hi, h.response, written, Ne.symm hi]
  · intro i
    have hsent : Sent i (es ++ [.writes index data]) ↔ Sent i es := sent_concat (fun _ _ _ => nofun)
    rw [(hworker i).1, hsent, h.handle_iff i]
  · intro i
    rw [(hworker i).1, h.transfer_iff i]
  · intro i result
    rw [List.mem_append, List.mem_singleton, or_iff_left nofun, h.done_iff i result]
  · intro i
    have hlive : s.phase ≠ .completed := by rw [hphase]; nofun
    show _ = if s.phase = .completed then _ else 0
    rw [(hworker i).2, h.status i, if_neg hlive, if_neg hlive]

theorem GroupInv.step (h : GroupInv handle workerCount es s) (hstep : curlGroupStep s e = some s') (hlive : s'.Live) :
    GroupInv handle workerCount (es ++ [e]) s' := by
  cases e with
  | assign index request a =>
      obtain ⟨⟨hphase, hlt⟩, rfl⟩ := assign_cases hstep
      exact h.assign hphase hlt
  | complete =>
      obtain ⟨hphase, rfl⟩ := complete_cases hstep
      refine h.phase rfl (by split <;> nofun) (by rw [hphase]; nofun) ?_
      intro hcompleted i
      by_contra hsome
      have hhandle := ((h.handle_iff i).mp ((h.transfer_iff i).mp hsome)).1
      rw [h.handle_eq, hhandle] at hcompleted
      cases hcompleted
  | receives index code => exact h.receives hstep
  | writes index data => exact h.writes hstep
  | finishes index result => exact h.finishes hstep
  | perform ok =>
      obtain ⟨hphase, ⟨-, rfl⟩ | ⟨hleft, rfl⟩⟩ := perform_cases hstep
      · exact h.phase rfl nofun (by rw [hphase]; nofun) nofun
      · refine h.leave rfl (by rw [hphase]; nofun) ?_
        intro hperform _
        rcases hleft with rfl | hstill
        · exact absurd (by simp) hperform
        · exact not_running_of_stillRunning h hstill
  | poll ok =>
      obtain ⟨hphase, ⟨-, rfl⟩ | ⟨rfl, rfl⟩⟩ := poll_cases hstep
      · exact h.phase rfl nofun (by rw [hphase]; nofun) nofun
      · refine h.leave rfl (by rw [hphase]; nofun) ?_
        intro _ hpoll
        exact absurd (by simp) hpoll
  | close =>
      obtain ⟨-, rfl⟩ := close_cases hstep
      unfold endCurlGroup at hlive
      split at hlive
      · exact absurd rfl (hlive _)
      · exact absurd rfl (hlive _)

/-- The run lemma. -/
theorem groupInv_run (hrun : Machine.Run curlGroupStep (beginCurlGroup handle workerCount) es s) (hlive : s.Live) :
    GroupInv handle workerCount es s := by
  induction hrun with
  | start => exact .start
  | step _ hstep ih => exact (ih (live_of_step hstep)).step hstep hlive

/-- Only `end_curl_group` ends a group. -/
theorem live_of_ne_close (hstep : curlGroupStep s e = some s') (he : e ≠ .close) : s'.Live := by
  have hlive := live_of_step hstep
  cases e with
  | assign index request a =>
      obtain ⟨-, rfl⟩ := assign_cases hstep
      intro success
      rw [(s.assignWork_rest index request a).2.2.2]
      exact hlive success
  | complete =>
      obtain ⟨-, rfl⟩ := complete_cases hstep
      intro success
      dsimp only
      split <;> nofun
  | receives index code =>
      obtain ⟨-, _, _, -, rfl⟩ := receives_cases hstep
      exact hlive
  | writes index data =>
      obtain ⟨-, -, rfl⟩ := writes_cases hstep
      exact hlive
  | finishes index result =>
      obtain ⟨-, _, _, -, rfl⟩ := finishes_cases hstep
      exact hlive
  | perform ok =>
      obtain ⟨-, ⟨-, rfl⟩ | ⟨-, rfl⟩⟩ := perform_cases hstep
      · exact fun _ => nofun
      · exact fun _ => nofun
  | poll ok =>
      obtain ⟨-, ⟨-, rfl⟩ | ⟨-, rfl⟩⟩ := poll_cases hstep
      · exact fun _ => nofun
      · exact fun _ => nofun
  | close => exact absurd rfl he

/-- A group that was ended. -/
theorem ended_cases {success : Bool}
    (hrun : Machine.Run curlGroupStep (beginCurlGroup handle workerCount) es s) (hended : s.phase = .ended success) :
    ∃ es' s', es = es' ++ [.close] ∧ GroupInv handle workerCount es' s' ∧ s'.phase = .completed ∧
      Machine.Run curlGroupStep (beginCurlGroup handle workerCount) es' s' ∧ s = s'.endCurlGroup := by
  cases hrun with
  | start => cases hended
  | @step es s' _ e hrun hstep =>
      have hinv := groupInv_run hrun (live_of_step hstep)
      by_cases hclose : e = .close
      · subst hclose
        obtain ⟨hphase, hend⟩ := close_cases hstep
        exact ⟨es, s', rfl, hinv, hphase, hrun, hend⟩
      · exact absurd hended (live_of_ne_close hstep hclose success)

/-! ## Handles and header lists -/

/-- The workers that requests were assigned to. -/
def assigned (es : List GroupEvent) : List Nat :=
  es.filterMap fun
    | .assign index _ _ => some index
    | _                 => none

theorem assigned_concat (es : List GroupEvent) (e : GroupEvent) :
    assigned (es ++ [e]) = assigned es ++ assigned [e] := by
  simp [assigned]

/-- What libcurl holds belongs to a worker. -/
structure Owned (es : List GroupEvent) (s : CurlGroup) : Prop where
  easyHandles : s.easyHandles = (s.having CurlWorker.handle).card
  headerLists : s.headerLists = (s.having CurlWorker.headerList).card
  unassigned : ∀ i, i ∉ assigned es → (s.worker i).handle = false ∧ (s.worker i).headerList = false
  /-- Without a handle there is nothing. -/
  nothing : s.handle = false → s.easyHandles = 0 ∧ s.headerLists = 0

theorem having_congr {p : CurlWorker → Bool} (hcount : s'.workerCount = s.workerCount)
    (h : ∀ i, p (s'.worker i) = p (s.worker i)) : s'.having p = s.having p := by
  unfold having
  rw [hcount]
  exact Finset.filter_congr fun i _ => by rw [h i]

/-- A worker gets what it had not. -/
theorem card_having_update {p : CurlWorker → Bool} {index : Nat} {w : CurlWorker} (hlt : index < s.workerCount)
    (hcount : s'.workerCount = s.workerCount) (hworker : s'.worker = Function.update s.worker index w)
    (hbefore : p (s.worker index) = false) :
    ((s'.having p).card : Int) = (s.having p).card + if p w = true then 1 else 0 := by
  by_cases hw : p w = true
  · have hinsert : s'.having p = insert index (s.having p) := by
      ext i
      simp only [having, hcount, hworker, Finset.mem_filter, Finset.mem_insert, Finset.mem_range]
      by_cases hi : i = index
      · subst hi
        simp [hw, hlt]
      · simp [hi]
    have hnotMem : index ∉ s.having p := by simp [having, hbefore]
    rw [hinsert, Finset.card_insert_of_notMem hnotMem, if_pos hw]
    push_cast
    rfl
  · have hsame : s'.having p = s.having p := by
      refine having_congr hcount ?_
      intro i
      rw [hworker]
      by_cases hi : i = index
      · subst hi
        rw [Function.update_self, hbefore]
        simpa using hw
      · rw [Function.update_of_ne hi]
    rw [hsame, if_neg hw, Int.add_zero]

/-- A step that leaves the handles and lists of all workers. -/
theorem Owned.same (h : Owned es s) (hassigned : assigned (es ++ [e]) = assigned es)
    (hhandle : s'.handle = s.handle) (hcount : s'.workerCount = s.workerCount)
    (hworker : ∀ i, (s'.worker i).handle = (s.worker i).handle ∧ (s'.worker i).headerList = (s.worker i).headerList)
    (heasy : s'.easyHandles = s.easyHandles) (hlists : s'.headerLists = s.headerLists) : Owned (es ++ [e]) s' where
  easyHandles := by rw [heasy, h.easyHandles, having_congr hcount fun i => (hworker i).1]
  headerLists := by rw [hlists, h.headerLists, having_congr hcount fun i => (hworker i).2]
  unassigned i hi := by
    rw [(hworker i).1, (hworker i).2]
    exact h.unassigned i (hassigned ▸ hi)
  nothing := by
    rw [hhandle, heasy, hlists]
    exact h.nothing

/-- `assign_work` hands what it makes to a worker that had nothing. -/
theorem Owned.assign {index : Nat} {request : CurlRequest} {a : AssignAnswers} (h : Owned es s)
    (hlt : index < s.workerCount) (hfresh : index ∉ assigned es) :
    Owned (es ++ [.assign index request a]) (s.assignWork index request a) := by
  obtain ⟨hhandle, hlist⟩ := h.unassigned index hfresh
  have hassigned : assigned (es ++ [.assign index request a]) = assigned es ++ [index] := assigned_concat ..
  -- whatever it becomes, only the worker of this index is another one
  have hunassigned : ∀ w : CurlWorker, ∀ i, i ∉ assigned es ++ [index] →
      (Function.update s.worker index w i).handle = false ∧
        (Function.update s.worker index w i).headerList = false := by
    intro w i hi
    rw [List.mem_append, List.mem_singleton, not_or] at hi
    rw [Function.update_of_ne hi.2]
    exact h.unassigned i hi.1
  unfold assignWork
  split
  · next hinit =>
      dsimp only
      split
      · next hadded =>
          refine ⟨?_, ?_, hassigned ▸ hunassigned _, fun hno => absurd (hinit.1.symm.trans hno) nofun⟩
          · refine Eq.symm (Eq.trans (card_having_update (s := s) hlt rfl rfl hhandle) ?_)
            rw [← h.easyHandles]
            rfl
          · refine Eq.symm (Eq.trans (card_having_update (s := s) hlt rfl rfl hlist) ?_)
            rw [← h.headerLists]
            cases a.appended <;> simp
      · next hunadded =>
          refine ⟨?_, ?_, hassigned ▸ hunassigned _, fun hno => absurd (hinit.1.symm.trans hno) nofun⟩
          · refine Eq.symm (Eq.trans (card_having_update (s := s) hlt rfl rfl hhandle) ?_)
            rw [← h.easyHandles]
            simp [hhandle]
          · refine Eq.symm (Eq.trans (card_having_update (s := s) hlt rfl rfl hlist) ?_)
            rw [← h.headerLists]
            cases a.appended <;> simp
  · refine ⟨h.easyHandles, h.headerLists, ?_, h.nothing⟩
    intro i hi
    rw [hassigned, List.mem_append, not_or] at hi
    exact h.unassigned i hi.1

theorem Owned.step (h : Owned es s) (hstep : curlGroupStep s e = some s') (hlive : s'.Live)
    (honce : (assigned (es ++ [e])).Nodup) : Owned (es ++ [e]) s' := by
  cases e with
  | assign index request a =>
      obtain ⟨⟨-, hlt⟩, rfl⟩ := assign_cases hstep
      refine h.assign hlt ?_
      rw [assigned_concat] at honce
      exact fun hmem => (List.nodup_append.mp honce).2.2 index hmem index (by simp [assigned]) rfl
  | complete =>
      obtain ⟨-, rfl⟩ := complete_cases hstep
      exact h.same ((assigned_concat ..).trans (List.append_nil _)) rfl rfl (fun _ => ⟨rfl, rfl⟩) rfl rfl
  | receives index code =>
      obtain ⟨-, _, _, -, rfl⟩ := receives_cases hstep
      exact h.same ((assigned_concat ..).trans (List.append_nil _)) rfl rfl (fun _ => ⟨rfl, rfl⟩) rfl rfl
  | writes index data =>
      obtain ⟨-, -, rfl⟩ := writes_cases hstep
      refine h.same ((assigned_concat ..).trans (List.append_nil _)) rfl rfl ?_ rfl rfl
      intro i
      by_cases hi : i = index
      · subst hi
        simp
      · simp [Function.update_of_ne hi]
  | finishes index result =>
      obtain ⟨-, _, _, -, rfl⟩ := finishes_cases hstep
      exact h.same ((assigned_concat ..).trans (List.append_nil _)) rfl rfl (fun _ => ⟨rfl, rfl⟩) rfl rfl
  | perform ok =>
      obtain ⟨-, ⟨-, rfl⟩ | ⟨-, rfl⟩⟩ := perform_cases hstep
      · exact h.same ((assigned_concat ..).trans (List.append_nil _)) rfl rfl (fun _ => ⟨rfl, rfl⟩) rfl rfl
      · refine h.same ((assigned_concat ..).trans (List.append_nil _)) rfl rfl ?_ rfl rfl
        exact fun i => ⟨(s.leaveLoop_worker i).1, s.leaveLoop_headerList i⟩
  | poll ok =>
      obtain ⟨-, ⟨-, rfl⟩ | ⟨-, rfl⟩⟩ := poll_cases hstep
      · exact h.same ((assigned_concat ..).trans (List.append_nil _)) rfl rfl (fun _ => ⟨rfl, rfl⟩) rfl rfl
      · refine h.same ((assigned_concat ..).trans (List.append_nil _)) rfl rfl ?_ rfl rfl
        exact fun i => ⟨(s.leaveLoop_worker i).1, s.leaveLoop_headerList i⟩
  | close =>
      obtain ⟨-, rfl⟩ := close_cases hstep
      unfold endCurlGroup at hlive
      split at hlive
      · exact absurd rfl (hlive _)
      · exact absurd rfl (hlive _)

theorem owned_run (hrun : Machine.Run curlGroupStep (beginCurlGroup handle workerCount) es s) (hlive : s.Live)
    (honce : (assigned es).Nodup) : Owned es s := by
  induction hrun with
  | start =>
      have hnone : ∀ p : CurlWorker → Bool, p .zero = false →
          ((beginCurlGroup handle workerCount).having p).card = 0 := by
        intro p hp
        simp [having, beginCurlGroup, hp]
      refine ⟨?_, ?_, fun _ _ => ⟨rfl, rfl⟩, fun _ => ⟨rfl, rfl⟩⟩
      · rw [hnone _ rfl]
        rfl
      · rw [hnone _ rfl]
        rfl
  | @step es _ _ e _ hstep ih =>
      have hbefore : (assigned es).Nodup := by
        rw [assigned_concat] at honce
        exact (List.nodup_append.mp honce).1
      exact (ih (live_of_step hstep) hbefore).step hstep hlive honce

/-! ## What a group says -/

theorem readMessages_iff (messages : List CurlMsg) :
    readMessages messages = true ↔ ∀ message ∈ messages, message.done = true ∧ message.result = 0 := by
  induction messages with
  | nil => simp [readMessages]
  | cons message rest ih =>
      rw [readMessages]
      split
      · next hbad =>
          simp only [Bool.false_eq_true, List.mem_cons, forall_eq_or_imp, false_iff]
          rintro ⟨⟨hdone, hresult⟩, -⟩
          rcases hbad with hbad | hbad
          · exact hbad hdone
          · exact hbad hresult
      · next hgood =>
          rw [not_or, not_not, not_not] at hgood
          rw [ih, List.forall_mem_cons]
          exact (and_iff_right hgood).symm

/-- No transfer failed. -/
theorem readMessages_messagesOf (es : List GroupEvent) :
    readMessages (messagesOf es) = true ↔ ∀ i result, .finishes i result ∈ es → result = 0 := by
  rw [readMessages_iff]
  constructor
  · intro h i result hmem
    exact (h ⟨true, result⟩ (List.mem_filterMap.mpr ⟨_, hmem, rfl⟩)).2
  · rintro h message hmem
    obtain ⟨e, he, hmessage⟩ := List.mem_filterMap.mp hmem
    split at hmessage
    · next i result =>
        cases hmessage
        exact ⟨rfl, h i result he⟩
    · cases hmessage

/-- **What the result of `end_curl_group` means.** -/
theorem success_iff {success : Bool}
    (hrun : Machine.Run curlGroupStep (beginCurlGroup handle workerCount) es s) (hended : s.phase = .ended success) :
    success = true ↔ handle = false ∨
      ((∀ i < workerCount, Sent i es) ∧ ∀ i result, .finishes i result ∈ es → result = 0) := by
  obtain ⟨es, s, rfl, hinv, -, -, rfl⟩ := ended_cases hrun hended
  have hsent : ∀ i, Sent i (es ++ [.close]) ↔ Sent i es := fun i => sent_concat (fun _ _ _ => nofun)
  have hfinishes : ∀ i result, .finishes i result ∈ es ++ [.close] ↔ .finishes i result ∈ es := by simp
  simp only [hsent, hfinishes]
  unfold endCurlGroup at hended
  split at hended
  · next hhandle =>
      have hhandle' : handle = true := hinv.handle_eq.symm.trans hhandle
      subst hhandle'
      cases GroupPhase.ended.inj hended
      simp only [Bool.and_eq_true, decide_eq_true_eq, hinv.messages, readMessages_messagesOf, hinv.count_eq,
        hinv.handle_iff, true_and, Bool.true_eq_false, false_or]
      exact and_comm
  · next hhandle =>
      have hhandle' : handle = false := by simpa [hinv.handle_eq] using hhandle
      cases GroupPhase.ended.inj hended
      simp [hhandle']

/-- Unless a call of libcurl fails, it means that every request got its answer. -/
theorem success_iff_answered {success : Bool}
    (hrun : Machine.Run curlGroupStep (beginCurlGroup true workerCount) es s) (hended : s.phase = .ended success)
    (hperform : .perform false ∉ es) (hpoll : .poll false ∉ es) :
    success = true ↔ ∀ i < workerCount, .finishes i 0 ∈ es := by
  rw [success_iff hrun hended]
  obtain ⟨es, s, rfl, hinv, hcompleted, -, rfl⟩ := ended_cases hrun hended
  have hsent : ∀ i, Sent i (es ++ [.close]) ↔ Sent i es := fun i => sent_concat (fun _ _ _ => nofun)
  have hfinishes : ∀ i result, .finishes i result ∈ es ++ [.close] ↔ .finishes i result ∈ es := by simp
  have hidle := hinv.idle hcompleted (fun h => hperform (List.mem_append_left _ h))
    (fun h => hpoll (List.mem_append_left _ h))
  simp only [hsent, hfinishes, Bool.true_eq_false, false_or]
  constructor
  · rintro ⟨hall, hgood⟩ i hi
    have hhandle := (hinv.handle_iff i).mpr ⟨rfl, hall i hi⟩
    cases htransfer : s.transfer i with
    | none => exact absurd htransfer ((hinv.transfer_iff i).mpr hhandle)
    | running request code => exact absurd htransfer (hidle i request code)
    | done request code result =>
        have hmem := (hinv.done_iff i result).mpr ⟨request, code, htransfer⟩
        rwa [← hgood i result hmem]
  · intro hall
    constructor
    · intro i hi
      obtain ⟨request, code, hdone⟩ := (hinv.done_iff i 0).mp (hall i hi)
      exact ((hinv.handle_iff i).mp ((hinv.transfer_iff i).mp (by rw [hdone]; nofun))).2
    · intro i result hmem
      obtain ⟨request, code, hdone⟩ := (hinv.done_iff i result).mp hmem
      have hlt := hinv.index_lt i (by rw [hdone]; nofun)
      obtain ⟨request', code', hdone'⟩ := (hinv.done_iff i 0).mp (hall i hlt)
      rw [hdone] at hdone'
      exact (Transfer.done.inj hdone').2.2

/-- Nothing of libcurl is left. -/
theorem released {success : Bool} (hrun : Machine.Run curlGroupStep (beginCurlGroup handle workerCount) es s)
    (hended : s.phase = .ended success) (honce : (assigned es).Nodup) :
    s.easyHandles = 0 ∧ s.headerLists = 0 ∧ ∀ i, s.transfer i = .none := by
  obtain ⟨es, s, rfl, hinv, hcompleted, hrun', rfl⟩ := ended_cases hrun hended
  have hlive : s.Live := by
    intro success'
    rw [hcompleted]
    nofun
  have hbefore : (assigned es).Nodup := by
    rw [assigned_concat] at honce
    exact (List.nodup_append.mp honce).1
  have howned := owned_run hrun' hlive hbefore
  unfold endCurlGroup
  split
  · refine ⟨?_, ?_, fun _ => rfl⟩
    · dsimp only
      rw [howned.easyHandles, Int.sub_self]
    · dsimp only
      rw [howned.headerLists, Int.sub_self]
  · next hhandle =>
      have hno : s.handle = false := by simpa using hhandle
      obtain ⟨heasy, hlists⟩ := howned.nothing hno
      refine ⟨heasy, hlists, ?_⟩
      intro i
      by_contra hsome
      have htrue := ((hinv.handle_iff i).mp ((hinv.transfer_iff i).mp hsome)).1
      rw [hinv.handle_eq, htrue] at hno
      cases hno

/-- **A group of requests, whatever libcurl does when.** Until the group is ended, the response of a worker is what was
    written for this worker, in this order, and behind `complete_all_works` its status is the last one it received. The
    result of `end_curl_group` is one if there never was a multi handle, or if every request was added and no transfer
    ended with an error; unless a call of libcurl fails this is to say that every request got its answer. With at most
    one request for each worker, every easy handle and every header list is given back once. -/
theorem group_answers (handle : Bool) (workerCount : Nat) {es : List GroupEvent} {s : CurlGroup}
    (hrun : Machine.Run curlGroupStep (beginCurlGroup handle workerCount) es s) :
    (s.Live → ∀ i, getResponse s i = CString.ofBytes (written i es) ∧
        (s.phase = .completed → (s.worker i).status = (codes i es).getLastD 0)) ∧
      ∀ success, s.phase = .ended success →
        (success = true ↔ handle = false ∨
          ((∀ i < workerCount, Sent i es) ∧ ∀ i result, .finishes i result ∈ es → result = 0)) ∧
        (handle = true → .perform false ∉ es → .poll false ∉ es →
          (success = true ↔ ∀ i < workerCount, .finishes i 0 ∈ es)) ∧
        ((assigned es).Nodup → s.easyHandles = 0 ∧ s.headerLists = 0 ∧ ∀ i, s.transfer i = .none) := by
  constructor
  · intro hlive i
    have hinv := groupInv_run hrun hlive
    refine ⟨congrArg CString.ofBytes (hinv.response i), ?_⟩
    intro hcompleted
    rw [hinv.status i, if_pos hcompleted]
  · intro success hended
    refine ⟨success_iff hrun hended, ?_, released hrun hended⟩
    rintro rfl
    exact success_iff_answered hrun hended

/-- Two requests; the parts of their responses come in turns, and the second one fails. -/
def twoRequests : List GroupEvent :=
  [.assign 0 ⟨CString.lit "https://api.github.com/user", CString.empty, none⟩ ⟨true, true, true, true⟩,
    .assign 1 ⟨CString.lit "https://api.github.com/orgs/x", CString.empty, none⟩ ⟨true, true, true, true⟩,
    .complete, .receives 0 200, .writes 0 [123], .perform true, .poll true, .receives 1 404, .finishes 1 22,
    .writes 0 [125], .finishes 0 0, .perform true, .close]

theorem group_answers_two : ∃ s : CurlGroup,
    Machine.Run curlGroupStep (beginCurlGroup true 2) twoRequests s ∧ s.phase = .ended false ∧ s.easyHandles = 0 := by
  have hsome : (twoRequests.foldlM curlGroupStep (beginCurlGroup true 2)).isSome := rfl
  have hrun : Machine.Run curlGroupStep (beginCurlGroup true 2) twoRequests _ :=
    Machine.run_iff_foldlM.mpr (Option.some_get hsome).symm
  obtain ⟨-, hended⟩ := group_answers true 2 hrun
  exact ⟨_, hrun, rfl, ((hended false rfl).2.2 (by decide)).1⟩

end CurlGroup

end Hand2.Fetch
