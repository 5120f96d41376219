import Hand2.Config.RoundTrip
import Mathlib.Data.List.GetD
import Mathlib.Data.List.Induction

/-!
# `Config.Load` — `load_config`

Every pair of the file is stored under the first name of `g_config_name` that its key matches. A key matches a name if
the name begins with it (`compare_substring` over the length of the key), so a key that is no name may overwrite the
value of one. `load_config_iff` says when that shows.
-/

namespace Hand2

/-- `g_config_name`. -/
def configNames : List CString :=
  [CString.lit "github_access_token", CString.lit "google_api_key", CString.lit "organization", CString.lit "ta_team",
    CString.lit "student_team", CString.lit "feedback_repository", CString.lit "spreadsheet",
    CString.lit "username_label", CString.lit "student_id_label", CString.lit "email", CString.lit "grade_command",
    CString.lit "grade_thread", CString.lit "score_relative_path", CString.lit "penalty_per_day",
    CString.lit "weekends_as_one_day"]

/-- `g_config_name[i]`. -/
def configName (i : Nat) : CString := configNames.getD i CString.empty

/-- `Config`: `config->value[i]`, a null pointer being nothing. -/
abbrev Config := Nat → Option CString

/-- `clear_memory(config, ..)`. -/
def Config.cleared : Config := fun _ => none

/-- `allocate_and_copy_string`: no memory is as large as a negative size says. -/
def allocateAndCopyString (string : List UInt8) (size : Int) : Except Fault CString :=
  if size < 0 then .error .exit else .ok (CString.ofBytes (string.take size.toNat))

/-- What is done with a pair: the value of the first name its key matches is set. -/
def loadPair (config : Config) (kv : KeyValue) : Except Fault Config :=
  match configNames.findIdx? (fun name => compareSubstring kv.key name.bytes (sizeT kv.keyLen)) with
  -- an unrecognized key is reported and passed over
  | none => .ok config
  | some i => do
      let value ← allocateAndCopyString kv.value kv.valueLen
      .ok (Function.update config i (some value))

/-- The loop over the pairs, for at most `calls` of them and `fuel` rounds a call. -/
def loadLoop (fuel : Nat) : Nat → ConfigParser → Config → Except Fault Config
  | 0,         _,      _      => .error .outOfFuel
  | calls + 1, parser, config => do
      let out ← parseKeyValuePair fuel parser
      match out.1 with
      | none => .ok config
      | some kv => do
          let config ← loadPair config kv
          loadLoop fuel calls out.2 config

/-- `load_config`, of a file that may not be there: the result and the values. A file of size zero counts as one that
    cannot be read. -/
def loadConfig (fuel : Nat) (file : Option (List UInt8)) : Except Fault (Bool × Config) := do
  let config ← (match file with
    | none         => .ok Config.cleared
    | some content => if content = [] then .ok Config.cleared
        else loadLoop fuel fuel (initConfigParser content) Config.cleared : Except Fault Config)
  .ok ((List.range configNames.length).all (fun i => (config i).isSome), config)

/-! ## Pairs as strings -/

/-- A key and its value. -/
abbrev ConfigPair := CString × CString

/-- The content parses to these pairs. -/
def ParsesTo (content : List UInt8) (ps : List ConfigPair) : Prop :=
  ∃ kvs, Parses (initConfigParser content) kvs ∧
    List.Forall₂ (fun (p : ConfigPair) kv => kv.Reads p.1.bytes p.2.bytes) ps kvs

/-- The first name that begins with the key. -/
def firstMatch (key : CString) : Option Nat := configNames.findIdx? (fun name => key.bytes.isPrefixOf name.bytes)

/-- The values with a pair stored. -/
def store (config : Config) (p : ConfigPair) : Config :=
  match firstMatch p.1 with
  | none   => config
  | some i => Function.update config i (some p.2)

/-- The values after some pairs. -/
def configAfter (ps : List ConfigPair) : Config := ps.foldl store Config.cleared

/-- A key without NUL matches the names that begin with it. -/
theorem compareSubstring_iff {key rest name : List UInt8} (hkey : (0 : UInt8) ∉ key) (hname : (0 : UInt8) ∉ name) :
    compareSubstring (key ++ rest) name key.length = key.isPrefixOf name := by
  induction key generalizing name with
  | nil => simp [compareSubstring]
  | cons a key ih =>
      cases name with
      | nil => rfl
      | cons b name =>
          have ha : a ≠ 0 := fun h => hkey (h ▸ List.mem_cons_self)
          have hb : b ≠ 0 := fun h => hname (h ▸ List.mem_cons_self)
          rw [List.cons_append, List.length_cons, compareSubstring, List.isPrefixOf]
          by_cases hab : a = b
          · subst hab
            rw [if_neg (by simp [ha]), ih (fun h => hkey (List.mem_cons_of_mem _ h))
              (fun h => hname (List.mem_cons_of_mem _ h))]
            simp
          · rw [if_pos (.inl hab)]
            simp [hab]

/-- **What is done with a pair** is storing it. -/
theorem loadPair_eq {kv : KeyValue} {p : ConfigPair} (h : kv.Reads p.1.bytes p.2.bytes) (config : Config) :
    loadPair config kv = .ok (store config p) := by
  obtain ⟨⟨hkeyLen, hkey⟩, hvalueLen, hvalue⟩ := h
  obtain ⟨rest, hrest⟩ := List.take_prefix p.1.bytes.length kv.key
  rw [hkey] at hrest
  have hmatch : (fun name : CString => compareSubstring kv.key name.bytes (sizeT kv.keyLen))
      = fun name => p.1.bytes.isPrefixOf name.bytes := by
    funext name
    have hlen : sizeT kv.keyLen = p.1.bytes.length := by
      rw [hkeyLen, sizeT, if_neg (by omega), Int.toNat_natCast]
    rw [hlen, ← hrest, compareSubstring_iff p.1.noNul name.noNul]
  unfold loadPair store firstMatch
  rw [hmatch]
  cases configNames.findIdx? (fun name => p.1.bytes.isPrefixOf name.bytes) with
  | none => rfl
  | some i =>
      have hcopy : allocateAndCopyString kv.value kv.valueLen = .ok p.2 := by
        unfold allocateAndCopyString
        rw [hvalueLen, if_neg (by omega), Int.toNat_natCast, hvalue, CString.ofBytes_bytes]
      dsimp only
      rw [hcopy]
      rfl

/-- The loop over the pairs stores them all. -/
theorem loadLoop_eq {parser : ConfigParser} {kvs : List KeyValue} {ps : List ConfigPair} (hparses : Parses parser kvs)
    (hreads : List.Forall₂ (fun (p : ConfigPair) kv => kv.Reads p.1.bytes p.2.bytes) ps kvs) (config : Config) :
    ∃ n, ∀ fuel ≥ n, ∀ calls ≥ n, loadLoop fuel calls parser config = .ok (ps.foldl store config) := by
  induction hparses generalizing ps config with
  | done hcall =>
      cases hreads
      obtain ⟨n, hn⟩ := hcall
      refine ⟨n + 1, ?_⟩
      intro fuel hfuel calls hcalls
      obtain ⟨c, rfl⟩ := Nat.exists_eq_add_of_le' (show 1 ≤ calls by omega)
      rw [loadLoop, hn fuel (by omega)]
      rfl
  | pair hcall _ ih =>
      cases hreads with
      | @cons p _ ps' _ hread hrest =>
          obtain ⟨n, hn⟩ := hcall
          obtain ⟨m, hm⟩ := ih hrest (store config p)
          refine ⟨max n m + 1, ?_⟩
          intro fuel hfuel calls hcalls
          obtain ⟨c, rfl⟩ := Nat.exists_eq_add_of_le' (show 1 ≤ calls by omega)
          rw [loadLoop, hn fuel (by omega)]
          dsimp only [Bind.bind, Except.bind]
          rw [loadPair_eq hread]
          exact hm fuel (by omega) c (by omega)

/-- **`load_config`, pair by pair.** -/
theorem loadConfig_eq {content : List UInt8} {ps : List ConfigPair} (h : ParsesTo content ps) :
    ∃ n, ∀ fuel ≥ n, loadConfig fuel (some content)
      = .ok ((List.range configNames.length).all (fun i => (configAfter ps i).isSome), configAfter ps) := by
  obtain ⟨kvs, hparses, hreads⟩ := h
  by_cases hempty : content = []
  · subst hempty
    obtain ⟨parser', hcall⟩ := returns_eof (sees_init []) rfl
    obtain rfl := parses_unique hparses (.done hcall)
    cases hreads
    exact ⟨0, fun fuel _ => rfl⟩
  · obtain ⟨n, hn⟩ := loadLoop_eq hparses hreads Config.cleared
    refine ⟨n, ?_⟩
    intro fuel hfuel
    unfold loadConfig
    dsimp only
    rw [if_neg hempty, hn fuel hfuel fuel hfuel]
    rfl

/-! ## Exact keys -/

/-- The value of the last pair with that key. -/
def lastValue (ps : List ConfigPair) (name : CString) : Option CString :=
  (ps.reverse.find? (fun p => p.1 = name)).map Prod.snd

theorem lastValue_concat (ps : List ConfigPair) (p : ConfigPair) (name : CString) :
    lastValue (ps ++ [p]) name = if p.1 = name then some p.2 else lastValue ps name := by
  unfold lastValue
  rw [List.reverse_append, List.reverse_singleton, List.singleton_append, List.find?_cons]
  by_cases h : p.1 = name
  · simp [h]
  · simp [h]

theorem configAfter_concat (ps : List ConfigPair) (p : ConfigPair) :
    configAfter (ps ++ [p]) = store (configAfter ps) p := by
  unfold configAfter
  rw [List.foldl_append]
  rfl

/-- No name begins another. -/
theorem configName_inj : ∀ i < configNames.length, ∀ j < configNames.length,
    (configName i).bytes.isPrefixOf (configName j).bytes → i = j := by
  decide

theorem configName_eq {i : Nat} (hi : i < configNames.length) : configName i = configNames[i] :=
  List.getD_eq_getElem _ _ hi

theorem configName_mem {i : Nat} (hi : i < configNames.length) : configName i ∈ configNames := by
  rw [configName_eq hi]
  exact List.getElem_mem hi

theorem exists_configName {name : CString} (h : name ∈ configNames) :
    ∃ i < configNames.length, configName i = name := by
  obtain ⟨i, hi, hname⟩ := List.getElem_of_mem h
  exact ⟨i, hi, (configName_eq hi).trans hname⟩

/-- A name matches itself first. -/
theorem firstMatch_configName {i : Nat} (hi : i < configNames.length) : firstMatch (configName i) = some i := by
  unfold firstMatch
  rw [List.findIdx?_eq_some_iff_getElem]
  refine ⟨hi, ?_, ?_⟩
  · rw [← configName_eq hi]
    simp
  · intro j hj
    have hne : ¬ (configName i).bytes.isPrefixOf (configName j).bytes = true := fun h =>
      absurd (configName_inj i hi j (by omega) h) (by omega)
    rwa [← configName_eq (Nat.lt_trans hj hi)]

theorem firstMatch_lt {key : CString} {i : Nat} (h : firstMatch key = some i) : i < configNames.length := by
  unfold firstMatch at h
  obtain ⟨hlt, -⟩ := List.findIdx?_eq_some_iff_getElem.mp h
  exact hlt

/-- A pair whose key is a name sets its value. -/
theorem store_name {config : Config} {p : ConfigPair} (hname : p.1 ∈ configNames) {i : Nat}
    (hi : i < configNames.length) : store config p i = if p.1 = configName i then some p.2 else config i := by
  -- the key is a name, and no name begins another: it matches no other one first
  obtain ⟨j, hj, hkey⟩ := exists_configName hname
  unfold store
  rw [← hkey, firstMatch_configName hj]
  dsimp only
  by_cases hij : i = j
  · subst hij
    simp
  · rw [Function.update_of_ne hij, if_neg]
    intro h
    apply hij
    exact (configName_inj j hj i hi (by rw [h]; simp)).symm

/-- Pairs that are no name changed nothing, so far. -/
def StraysChangeNothing (ps : List ConfigPair) : Prop :=
  ∀ before p after, ps = before ++ p :: after → p.1 ∉ configNames →
    configAfter (before ++ [p]) = configAfter before

/-- Every pair whose key is no name, but begins one, gives the first such name the value it has: that of the last
    pair before with that name. -/
def StraysAgree (ps : List ConfigPair) : Prop :=
  ∀ before p after, ps = before ++ p :: after → p.1 ∉ configNames → ∀ i, firstMatch p.1 = some i →
    lastValue before (configName i) = some p.2

/-- After pairs whose strays changed nothing, each name has the value of its last pair. -/
theorem configAfter_eq_lastValue {ps : List ConfigPair} (h : StraysChangeNothing ps) {i : Nat}
    (hi : i < configNames.length) : configAfter ps i = lastValue ps (configName i) := by
  induction ps using List.reverseRecOn with
  | nil => rfl
  | append_singleton ps p ih =>
      have hbefore : StraysChangeNothing ps := by
        intro before q after hsplit
        exact h before q (after ++ [p]) (by rw [hsplit]; simp)
      rw [lastValue_concat]
      by_cases hname : p.1 ∈ configNames
      · rw [configAfter_concat, store_name hname hi, ih hbefore]
      · rw [h ps p [] rfl hname, ih hbefore, if_neg]
        -- a stray is no name, so it is no name's last pair either
        rintro heq
        exact hname (heq ▸ configName_mem hi)

/-- Strays change nothing exactly if they agree with what is there. -/
theorem straysChangeNothing_iff (ps : List ConfigPair) : StraysChangeNothing ps ↔ StraysAgree ps := by
  constructor
  · intro h before p after hsplit hstray i hmatch
    -- up to the stray the values are those of the last pairs, so it gave its name what that had
    have hbefore : StraysChangeNothing before := by
      intro before' q after' hsplit'
      exact h before' q (after' ++ p :: after) (by rw [hsplit, hsplit']; simp)
    rw [← configAfter_eq_lastValue hbefore (firstMatch_lt hmatch), ← h before p after hsplit hstray,
      configAfter_concat, store, hmatch]
    simp
  · intro h
    induction ps using List.reverseRecOn with
    | nil =>
        intro before p after hsplit
        exact absurd hsplit (by simp)
    | append_singleton ps q ih =>
        have hbefore : StraysChangeNothing ps := by
          apply ih
          intro before p after hsplit
          exact h before p (after ++ [q]) (by rw [hsplit]; simp)
        intro before p after hsplit hstray
        rcases List.eq_nil_or_concat after with rfl | ⟨after', last, rfl⟩
        · -- the last pair: it gives a name the value it has, or none
          obtain ⟨rfl, hq⟩ := List.append_inj' hsplit rfl
          obtain rfl := List.head_eq_of_cons_eq hq
          rw [configAfter_concat, store]
          cases hmatch : firstMatch q.1 with
          | none => rfl
          | some i =>
              dsimp only
              rw [← h ps q [] rfl hstray i hmatch, ← configAfter_eq_lastValue hbefore (firstMatch_lt hmatch)]
              exact Function.update_eq_self i _
        · apply hbefore before p after' _ hstray
          have hsplit' : ps ++ [q] = (before ++ p :: after') ++ [last] := by rw [hsplit]; simp
          exact (List.append_inj' hsplit' rfl).1

/-- **Keys are matched exactly**: each name has the value of its last pair, pairs that are no name change nothing, and
    the load succeeds if and only if every name is there. -/
def ExactKeys (content : List UInt8) (ps : List ConfigPair) : Prop :=
  StraysChangeNothing ps ∧
  ∃ n, ∀ fuel ≥ n, ∃ success config, loadConfig fuel (some content) = .ok (success, config) ∧
    (∀ i < configNames.length, config i = lastValue ps (configName i)) ∧
    (success = true ↔ ∀ name ∈ configNames, ∃ p ∈ ps, p.1 = name)

theorem lastValue_isSome {ps : List ConfigPair} {name : CString} :
    (lastValue ps name).isSome ↔ ∃ p ∈ ps, p.1 = name := by
  simp [lastValue]

/-- **When keys are matched exactly.** -/
theorem load_config_iff {content : List UInt8} {ps : List ConfigPair} (hparses : ParsesTo content ps) :
    ExactKeys content ps ↔ StraysAgree ps := by
  rw [← straysChangeNothing_iff]
  constructor
  · intro h
    exact h.1
  · intro hstrays
    obtain ⟨n, hn⟩ := loadConfig_eq hparses
    refine ⟨hstrays, n, ?_⟩
    intro fuel hfuel
    refine ⟨_, _, hn fuel hfuel, fun i hi => configAfter_eq_lastValue hstrays hi, ?_⟩
    rw [List.all_eq_true]
    constructor
    · intro hall name hname
      obtain ⟨i, hi, rfl⟩ := exists_configName hname
      rw [← lastValue_isSome, ← configAfter_eq_lastValue hstrays hi]
      exact hall i (List.mem_range.mpr hi)
    · intro hall i hi
      have hi' := List.mem_range.mp hi
      rw [configAfter_eq_lastValue hstrays hi', lastValue_isSome]
      exact hall _ (configName_mem hi')

/-! ## A key of one letter -/

/-- `email='x' e='x'`. -/
def agreeingFile : List UInt8 := (CString.lit "email='x' e='x'").bytes

def agreeingPairs : List ConfigPair :=
  [(CString.lit "email", CString.lit "x"), (CString.lit "e", CString.lit "x")]

theorem load_config_agreeingFile : ParsesTo agreeingFile agreeingPairs ∧ ExactKeys agreeingFile agreeingPairs := by
  have hparses : ParsesTo agreeingFile agreeingPairs := by
    obtain ⟨_, hemail, hsees⟩ := returns_pair (sees_init agreeingFile) rfl rfl rfl
    obtain ⟨_, he, hsees'⟩ := returns_pair hsees rfl rfl rfl
    obtain ⟨_, hend⟩ := returns_eof hsees' rfl
    exact ⟨_, .pair hemail (.pair he (.done hend)), .cons ⟨⟨rfl, rfl⟩, rfl, rfl⟩ (.cons ⟨⟨rfl, rfl⟩, rfl, rfl⟩ .nil)⟩
  refine ⟨hparses, (load_config_iff hparses).mpr ?_⟩
  intro before p after hsplit hstray i hmatch
  cases before with
  | nil =>
      injection hsplit with hp _
      exact absurd (hp ▸ (by decide : CString.lit "email" ∈ configNames)) hstray
  | cons a before =>
      injection hsplit with ha hsplit
      cases before with
      | nil =>
          injection hsplit with hp _
          subst ha hp
          obtain rfl : 9 = i := Option.some.inj hmatch
          decide
      | cons b before =>
          injection hsplit with _ hsplit
          exact absurd hsplit (by simp)

/-- `e='x'`. -/
def strayFile : List UInt8 := (CString.lit "e='x'").bytes

/-- **A key of one letter sets the email.** -/
theorem load_config_counterexample : ParsesTo strayFile [(CString.lit "e", CString.lit "x")] ∧
    (∃ n, ∀ fuel ≥ n, ∃ config, loadConfig fuel (some strayFile) = .ok (false, config) ∧
      config 9 = some (CString.lit "x") ∧ configName 9 = CString.lit "email") ∧
    ¬ ExactKeys strayFile [(CString.lit "e", CString.lit "x")] := by
  have hparses : ParsesTo strayFile [(CString.lit "e", CString.lit "x")] := by
    obtain ⟨_, he, hsees⟩ := returns_pair (sees_init strayFile) rfl rfl rfl
    obtain ⟨_, hend⟩ := returns_eof hsees rfl
    exact ⟨_, .pair he (.done hend), .cons ⟨⟨rfl, rfl⟩, rfl, rfl⟩ .nil⟩
  obtain ⟨n, hn⟩ := loadConfig_eq hparses
  refine ⟨hparses, ⟨n, fun fuel hfuel => ⟨_, hn fuel hfuel, by decide, by decide⟩⟩, ?_⟩
  rintro ⟨hstrays, -⟩
  have hsame := congrFun (hstrays [] (CString.lit "e", CString.lit "x") [] rfl (by decide)) 9
  exact absurd hsame (by decide)

end Hand2
