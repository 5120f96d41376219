import Hand2.Announce.Grades
import Hand2.Json.Bodies

/-!
# `Announce.Bodies` — issue numbers, from the bodies of the responses

The announcement of grades looks for issues in listings that show what there is (`ShowsAll`). A listing does so where
its bodies have an object for each issue, with the number and the title as members, among others and in any form.
-/

namespace Hand2

open CJson JsonText Utf8

/-- The item of a body is that issue: its first members of these names are the issue's number and title. -/
structure Describes (item : Json) (issue : Issue) : Prop where
  number : ∃ digits, docMember (CString.lit "number") item = some (.number digits) ∧
    utf8 digits = decimal issue.number.val
  title : docString (CString.lit "title") item = some issue.title

/-- The bodies in front of the first one without items describe the issues, in some order. -/
def DescribesAll (bodies : Nat → Body) (issues : List Issue) : Prop :=
  ∃ n shown, (∀ k < n, itemsIn bodies k ≠ []) ∧ itemsIn bodies n = [] ∧ shown.Perm issues ∧
    List.Forall₂ Describes (Paged.concat (itemsIn bodies) 0 n) shown

/-- `strtod` reads an `int` as itself. -/
def ReadsInts (strtod : Strtod) : Prop :=
  ∀ n : Int, 0 < n → n ≤ intMax → (strtod.read (decimal n)).2 = .finite n

/-- An `int` is its own `valueint`. -/
theorem valueint_finite {n : Int} (hpos : 0 < n) (hmax : n ≤ intMax) : (Double.finite n).valueint = n := by
  unfold Double.valueint
  dsimp only
  rcases hmax.lt_or_eq with hlt | rfl
  · rw [if_neg (by exact_mod_cast Int.not_le.mpr hlt), if_neg]
    · simp
    · intro h
      have : n ≤ -2147483648 := by exact_mod_cast h
      omega
  · rw [if_pos (le_refl _)]

section Shown

variable {strtod : Strtod} (hints : ReadsInts strtod)
include hints

/-- The tree of an item shows the issue. -/
theorem Describes.shows {item : Json} {json : CJson} {issue : Issue} (h : Describes item issue)
    (htree : TreeOf strtod item json) : Shows json issue := by
  obtain ⟨hpos, hmax⟩ := issue.number.property
  refine ⟨?_, ?_⟩
  · obtain ⟨digits, hmember, hdigits⟩ := h.number
    have hitem := htree.getObjectItem (CString.lit "number")
    rw [hmember] at hitem
    unfold idJson
    generalize getObjectItemCaseSensitive (some json) (CString.lit "number") = found at hitem ⊢
    cases hitem with
    | some hnumber => rw [hnumber.number, hdigits, hints _ hpos hmax, valueint_finite hpos hmax]
  · have hitem := htree.getObjectItem (CString.lit "title")
    have htitle := h.title
    unfold docString at htitle
    unfold titleJson
    generalize getObjectItemCaseSensitive (some json) (CString.lit "title") = found, docMember _ item = v
      at hitem htitle ⊢
    cases hitem with
    | none => cases htitle
    | @some v tree hstring =>
        cases v with
        | string units =>
            obtain ⟨s, hs, rfl⟩ := hstring.string
            have hsame : some s = some issue.title := hs.symm.trans htitle
            rw [Option.some.inj hsame]
        | _ => cases htitle

/-- **Bodies that describe all issues make a listing that shows them.** -/
theorem showsAll_of_describesAll (hstrtod : ReadsNumbers strtod) {bodies : Nat → Body} {issues : List Issue}
    (h : DescribesAll bodies issues) : ShowsAll (responses strtod bodies) issues := by
  obtain ⟨n, shown, hfull, hempty, hperm, hitems⟩ := h
  refine ⟨n, shown, fun k hk hnil => ?_, (itemsOnPage_eq_nil hstrtod bodies n).mpr hempty, hperm, ?_⟩
  · exact hfull k hk ((itemsOnPage_eq_nil hstrtod bodies k).mp hnil)
  · have htrees := concat_treeOf hstrtod bodies 0 n
    have hpages : issuesOnPage (responses strtod bodies) = itemsOnPage (responses strtod bodies) := rfl
    rw [hpages]
    generalize Paged.concat (itemsIn bodies) 0 n = items, Paged.concat (itemsOnPage _) 0 n = trees at htrees hitems ⊢
    clear hperm
    induction htrees generalizing shown with
    | nil =>
        cases hitems
        exact .nil
    | cons htree _ ih =>
        cases hitems with
        | cons hitem hitems => exact .cons (hitem.shows hints htree) (ih _ hitems)

end Shown

/-- The number found for a title: that of an issue with the title, or zero where there is none. -/
def NumberFound (tracker : Tracker) (title : CString) (number : Int) : Prop :=
  (tracker.titled title = [] ∧ number = 0) ∨ ∃ issue ∈ tracker.titled title, number = issue.number.val

/-- The search of a listing that shows all issues. -/
theorem issueNumberIn_found {response : Nat → Option CJson} {tracker : Tracker} (title : CString)
    (hshows : ShowsAll response tracker.issues) (hend : ∃ n, issuesOnPage response n = []) :
    NumberFound tracker title (issueNumberIn title (Paged.upToEmpty (issuesOnPage response) hend)) := by
  obtain ⟨n, shown, hpages, hempty, hperm, hitems⟩ := hshows
  rw [Paged.upToEmpty_eq hempty hpages, issueNumberIn_shown hitems]
  have htitled : (shown.filter (fun issue => compareString issue.title title)).Perm (tracker.titled title) :=
    hperm.filter _
  cases hfilter : shown.filter (fun issue => compareString issue.title title) with
  | nil =>
      rw [hfilter] at htitled
      exact .inl ⟨htitled.symm.eq_nil, rfl⟩
  | cons issue issues =>
      rw [hfilter] at htitled
      exact .inr ⟨issue, htitled.mem_iff.mp List.mem_cons_self, rfl⟩

/-- **Issues are found in the bytes of the responses.** Let the listing of every repository describe exactly its
    issues, in any order, over any pages and however its bodies are written. Then the number that the function gives a
    repository is that of one of its issues with the title, and zero exactly where it has none. -/
theorem bodies_find_issues {strtod : Strtod} (hstrtod : ReadsNumbers strtod) (hints : ReadsInts strtod)
    (bodies : CString → Nat → Body) (trackers : CString → Tracker) (repos : List CString)
    (githubToken organization title : CString)
    (hdescribes : ∀ repo ∈ repos, DescribesAll (bodies repo) (trackers repo).issues) :
    ∃ rounds, ∀ fuel, rounds ≤ fuel →
      (∀ k < repos.length, IssuesUrlsFit (fun repo => responses strtod (bodies repo)) githubToken organization title
        (elem repos k)) →
      ∃ issueNumbers,
        retrieveIssueNumbersByTitle fuel (fun repo => responses strtod (bodies repo)) repos githubToken organization
          title = .ok issueNumbers ∧
        ∀ k < repos.length, NumberFound (trackers (elem repos k)) title (issueNumbers k) := by
  have hshows : ∀ repo ∈ repos, ShowsAll (responses strtod (bodies repo)) (trackers repo).issues :=
    fun repo hrepo => showsAll_of_describesAll hints hstrtod (hdescribes repo hrepo)
  have hend : ListingsEnd (fun repo => responses strtod (bodies repo)) repos := by
    intro repo hrepo
    obtain ⟨n, shown, -, hempty, -⟩ := hshows repo hrepo
    exact ⟨n, hempty⟩
  obtain ⟨rounds, hrounds⟩ := retrieveIssueNumbersByTitle_ends _ repos githubToken organization title hend
  refine ⟨rounds, fun fuel hfuel hfits => ?_⟩
  obtain ⟨issueNumbers, hok, hnumbers⟩ := (hrounds fuel hfuel).1 hfits
  refine ⟨issueNumbers, hok, fun k hk => ?_⟩
  rw [hnumbers k hk, listedIssues, dif_pos hk]
  exact issueNumberIn_found title (hshows _ (elem_mem hk)) _

/-- The issue of the body. -/
def issueSeven : Issue := ⟨⟨7, by decide⟩, CString.lit "hw1", CString.empty⟩

def trackerSeven : Tracker := ⟨[issueSeven], by decide⟩

theorem onePage_describes : DescribesAll onePage trackerSeven.issues := by
  refine ⟨1, [issueSeven], ?_, rfl, List.Perm.refl _, ?_⟩
  · intro k hk
    obtain rfl : k = 0 := by omega
    exact List.cons_ne_nil _ _
  · refine .cons ⟨⟨['7'], ?_, by decide +kernel⟩, by decide +kernel⟩ .nil
    rfl

/-- Digits are bytes as they stand, and are read back. -/
theorem utf8_digits (digits : List Char) (h : ∀ c ∈ digits, c.isDigit = true) :
    utf8 digits = digits.map (fun c => c.toNat.toUInt8) ∧
      ∀ n, (utf8 digits).foldl (fun n c => 10 * n + (c.toNat - 48)) n = Nat.ofDigitChars 10 digits n := by
  induction digits with
  | nil => exact ⟨rfl, fun _ => rfl⟩
  | cons c digits ih =>
      obtain ⟨hc, hdigits⟩ := List.forall_mem_cons.mp h
      obtain ⟨hmap, hread⟩ := ih hdigits
      simp only [Char.isDigit, Bool.and_eq_true, decide_eq_true_eq] at hc
      have hhigh : c.toNat ≤ 57 := hc.2
      have hbyte : c.toNat.toUInt8.toNat = c.toNat := by
        rw [Nat.toUInt8_eq, UInt8.toNat_ofNat']
        omega
      rw [utf8_cons, utf8EncodeChar_ascii (by omega), List.singleton_append]
      refine ⟨by rw [hmap, List.map_cons], fun n => ?_⟩
      rw [List.foldl_cons, hread, hbyte]
      rfl

theorem integerStrtod_ints : ReadsInts integerStrtod := by
  intro n hpos _
  have hdigits : ∀ c ∈ Nat.toDigits 10 n.natAbs, c.isDigit = true :=
    fun c hc => Nat.isDigit_of_mem_toDigits (by omega) (by omega) hc
  obtain ⟨hmap, hread⟩ := utf8_digits _ hdigits
  have hdecimal : decimal n = utf8 (Nat.toDigits 10 n.natAbs) := by
    rw [hmap, decimal, if_neg (by omega), List.nil_append]
  have hword : (decimal n).takeWhile isNumberChar = decimal n := by
    rw [List.takeWhile_eq_self_iff, hdecimal]
    exact (utf8_number fun c hc => .inl (hdigits c hc)).2
  show Double.finite (((decimal n).takeWhile isNumberChar).foldl (fun n c => 10 * n + (c.toNat - 48)) 0 : Nat) = _
  rw [hword, hdecimal, hread, Nat.ofDigitChars_ten_toDigits]
  have habs : (n.natAbs : Int) = n := Int.natAbs_of_nonneg (by omega)
  rw [← Int.cast_natCast, habs]

theorem bodies_find_issues_onePage :
    ∃ rounds, ∀ fuel, rounds ≤ fuel → ∃ issueNumbers,
      retrieveIssueNumbersByTitle fuel (fun _ => responses integerStrtod onePage) [CString.lit "hw1-b01902001"]
        (CString.lit "ghp_x") (CString.lit "course") (CString.lit "hw1") = .ok issueNumbers ∧
      issueNumbers 0 = 7 := by
  obtain ⟨rounds, hrounds⟩ := bodies_find_issues integerStrtod_reads integerStrtod_ints (fun _ => onePage)
    (fun _ => trackerSeven) [CString.lit "hw1-b01902001"] (CString.lit "ghp_x") (CString.lit "course")
    (CString.lit "hw1") (fun _ _ => onePage_describes)
  -- the search ends on the second page at the latest
  have hurls : IssuesUrlsFit (fun _ => responses integerStrtod onePage) (CString.lit "ghp_x") (CString.lit "course")
      (CString.lit "hw1") (CString.lit "hw1-b01902001") := by
    intro p hasked
    have hp : p ≤ 1 := by
      by_contra hlate
      exact hasked 1 (by omega) (.inl ((itemsOnPage_eq_nil integerStrtod_reads onePage 1).mpr rfl))
    obtain rfl | rfl : p = 0 ∨ p = 1 := by omega
    · have hfirst : GetFits (CString.lit "ghp_x")
          (issuesPageUrl (CString.lit "course") (CString.lit "hw1-b01902001") 1) := by decide +kernel
      exact hfirst
    · have hsecond : GetFits (CString.lit "ghp_x")
          (issuesPageUrl (CString.lit "course") (CString.lit "hw1-b01902001") 2) := by decide +kernel
      exact hsecond
  refine ⟨rounds, fun fuel hfuel => ?_⟩
  obtain ⟨issueNumbers, hok, hnumbers⟩ := hrounds fuel hfuel fun k hk => by
    obtain rfl : k = 0 := by simpa using hk
    exact hurls
  refine ⟨issueNumbers, hok, ?_⟩
  rcases hnumbers 0 (by decide) with ⟨hnone, -⟩ | ⟨issue, hissue, hnumber⟩
  · exact absurd hnone (by decide +kernel)
  · obtain rfl : issue = issueSeven := List.mem_singleton.mp (List.mem_filter.mp hissue).1
    exact hnumber

end Hand2
