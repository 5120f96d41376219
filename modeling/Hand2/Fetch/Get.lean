import Hand2.Common

/-!
# `Fetch.Get` — `assign_github_get`

Every request to GitHub has two texts that must fit their buffers: its url, and a header with the token. One that
does not ends the program, before any request of its group is sent. The fetchers that ask for every repository, or
every user, share the number of requests in a group and the array they take the names from.
-/

namespace Hand2

/-- `MAX_WORKER`. -/
def maxWorker : Nat := 64

theorem maxWorker_pos : 0 < maxWorker := by decide

/-- `array->elem[k]`. -/
def elem (array : List CString) (k : Nat) : CString := array.getD k CString.empty

/-- `MAX_REST_HEADER_LEN`. -/
def maxRestHeaderLen : Nat := 256

/-- `format_github_header`. -/
def githubHeader (githubToken : CString) : CString :=
  CString.lit "Accept: application/vnd.github+json\r\nAuthorization: Bearer " ++ githubToken ++
    CString.lit "\r\nX-GitHub-Api-Version: 2022-11-28\r\nUser-Agent: hand"

/-- `format_string` of a url, and `assign_github_get`: the url of the request. -/
def assignGithubGet (githubToken text : CString) : Except Fault CString := do
  let url ← formatString maxUrlLen text
  let _ ← formatString maxRestHeaderLen (githubHeader githubToken)
  .ok url

/-- Both texts fit. -/
def GetFits (githubToken text : CString) : Prop :=
  text.length < maxUrlLen ∧ (githubHeader githubToken).length < maxRestHeaderLen

instance (githubToken text : CString) : Decidable (GetFits githubToken text) :=
  inferInstanceAs (Decidable (text.length < maxUrlLen ∧ (githubHeader githubToken).length < maxRestHeaderLen))

variable {githubToken text : CString}

theorem assignGithubGet_ok (h : GetFits githubToken text) : assignGithubGet githubToken text = .ok text := by
  rw [assignGithubGet, formatString_ok h.1, formatString_ok h.2]
  rfl

theorem assignGithubGet_exit (h : ¬ GetFits githubToken text) : assignGithubGet githubToken text = .error .exit := by
  rw [assignGithubGet]
  by_cases hurl : text.length < maxUrlLen
  · rw [formatString_ok hurl, formatString_exit (Nat.not_lt.mp fun hheader => h ⟨hurl, hheader⟩)]
    rfl
  · rw [formatString_exit (Nat.not_lt.mp hurl)]
    rfl

end Hand2
