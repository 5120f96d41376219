import Hand2.Library.FileTree

/-!
# `Library.PathLookup` — from a path to a place

A path is walked component by component from a directory. A link on the way is replaced by its target, at
most as often as the system allows; a link that is the last component is replaced only if it is to be
followed. The last component may be missing, so that it can be created.

Two facts carry everything that is said about programs that delete: a lookup that succeeds in a smaller tree
has the same result in a larger one (`resolve_mono`), and following a link gives the same from wherever the
link was reached, links on the way only using up the allowance (`follow_place`).
-/

namespace FileTree

variable {ν κ : Type}

/-- Where a walk gets without following links. -/
inductive Walked (ν : Type) where
  | arrived (p : List ν)
  /-- At a link, whose target starts at `base`; what is left is the target and the rest of the path. -/
  | link (base : List ν) (path : List (Component ν))
  | failed

/-- The walk along a path, up to the first link it has to follow. -/
def walk (t : Tree ν κ) (follow : Bool) : List ν → List (Component ν) → Walked ν
  | cur, [] => .arrived cur
  | cur, c :: rest =>
      match t.entry cur with
      | some .dir =>
          match c with
          | .here   => walk t follow cur rest
          | .parent => walk t follow cur.dropLast rest
          | .name n =>
              match t.entry (cur ++ [n]) with
              | some (.link absolute target) =>
                  if rest = [] ∧ follow = false then .arrived (cur ++ [n])
                  else .link (if absolute then [] else cur) (target ++ rest)
              | some _ => walk t follow (cur ++ [n]) rest
              | none   => if rest = [] then .arrived (cur ++ [n]) else .failed
      | _ => .failed

/-- The place of a path, following at most `allowance` links. -/
def resolve (t : Tree ν κ) (follow : Bool) : Nat → List ν → List (Component ν) → Option (List ν)
  | allowance, cur, path =>
      match walk t follow cur path with
      | .arrived p => some p
      | .failed    => none
      | .link base path =>
          match allowance with
          | 0             => none
          | allowance + 1 => resolve t follow allowance base path

theorem resolve_arrived {t : Tree ν κ} {follow : Bool} {cur p : List ν} {path : List (Component ν)} (a : Nat)
    (h : walk t follow cur path = .arrived p) : resolve t follow a cur path = some p := by
  rw [resolve, h]

theorem resolve_failed {t : Tree ν κ} {follow : Bool} {cur : List ν} {path : List (Component ν)} (a : Nat)
    (h : walk t follow cur path = .failed) : resolve t follow a cur path = none := by
  rw [resolve, h]

theorem resolve_link_zero {t : Tree ν κ} {follow : Bool} {cur base : List ν} {path path' : List (Component ν)}
    (h : walk t follow cur path = .link base path') : resolve t follow 0 cur path = none := by
  rw [resolve, h]

theorem resolve_link_succ {t : Tree ν κ} {follow : Bool} {cur base : List ν} {path path' : List (Component ν)}
    (a : Nat) (h : walk t follow cur path = .link base path') :
    resolve t follow (a + 1) cur path = resolve t follow a base path' := by
  rw [resolve, h]

/-- Walks that go the same way lead to the same place. -/
theorem resolve_congr {t : Tree ν κ} {follow : Bool} (a : Nat) {cur cur' : List ν} {path path' : List (Component ν)}
    (h : walk t follow cur path = walk t follow cur' path') :
    resolve t follow a cur path = resolve t follow a cur' path' := by
  cases hw : walk t follow cur' path' with
  | arrived q => rw [resolve_arrived a (h.trans hw), resolve_arrived a hw]
  | failed => rw [resolve_failed a (h.trans hw), resolve_failed a hw]
  | link base path =>
      cases a with
      | zero => rw [resolve_link_zero (h.trans hw), resolve_link_zero hw]
      | succ a => rw [resolve_link_succ a (h.trans hw), resolve_link_succ a hw]

/-- How a lookup succeeds: its walk arrives, or comes to a link from which the lookup succeeds. -/
inductive Resolves (t : Tree ν κ) (follow : Bool) : Nat → List ν → List (Component ν) → List ν → Prop where
  | arrived {a : Nat} {cur p : List ν} {path : List (Component ν)} (hwalk : walk t follow cur path = .arrived p) :
      Resolves t follow a cur path p
  | link {a : Nat} {cur base p : List ν} {path path' : List (Component ν)}
      (hwalk : walk t follow cur path = .link base path') (hrest : Resolves t follow a base path' p) :
      Resolves t follow (a + 1) cur path p

/-- An induction over a lookup is one over the links it follows. -/
theorem resolves_of_resolve {t : Tree ν κ} {follow : Bool} {a : Nat} {cur p : List ν} {path : List (Component ν)}
    (h : resolve t follow a cur path = some p) : Resolves t follow a cur path p := by
  induction a generalizing cur path with
  | zero =>
      cases hw : walk t follow cur path with
      | arrived q =>
          rw [resolve_arrived 0 hw] at h
          exact Option.some.inj h ▸ .arrived hw
      | failed => rw [resolve_failed 0 hw] at h; exact absurd h (by simp)
      | link base path' => rw [resolve_link_zero hw] at h; exact absurd h (by simp)
  | succ a ih =>
      cases hw : walk t follow cur path with
      | arrived q =>
          rw [resolve_arrived (a + 1) hw] at h
          exact Option.some.inj h ▸ .arrived hw
      | failed => rw [resolve_failed (a + 1) hw] at h; exact absurd h (by simp)
      | link base path' =>
          rw [resolve_link_succ a hw] at h
          exact .link hw (ih h)

/-! ## Larger trees and larger allowances -/

/-- A walk that ends at something, or at a link, goes the same way in a larger tree; and so does a walk that ends at
    nothing, if whatever stands there now is not followed. -/
theorem walk_mono {t t' : Tree ν κ} (hle : t ≤ t') (follow : Bool) (cur : List ν) (path : List (Component ν)) :
    (∀ p, walk t follow cur path = .arrived p → t.entry p ≠ none ∨ follow = false →
      walk t' follow cur path = .arrived p) ∧
    ∀ base path', walk t follow cur path = .link base path' → walk t' follow cur path = .link base path' := by
  induction path generalizing cur with
  | nil => exact ⟨fun p h _ => h, fun base path' h => absurd h (by simp [walk])⟩
  | cons c rest ih =>
      cases hcur : t.entry cur with
      | none => simp [walk, hcur]
      | some e =>
          have hcur' := hle cur e hcur
          cases e with
          | file content => simp [walk, hcur]
          | link absolute target => simp [walk, hcur]
          | dir =>
              cases c with
              | here =>
                  simp only [walk, hcur, hcur']
                  exact ih cur
              | parent =>
                  simp only [walk, hcur, hcur']
                  exact ih cur.dropLast
              | name n =>
                  cases hn : t.entry (cur ++ [n]) with
                  | none =>
                      simp only [walk, hcur, hcur', hn]
                      constructor
                      · intro p h hp
                        split at h
                        · next hrest =>
                            injection h with h
                            rw [← h] at hp
                            have hfollow : follow = false := hp.resolve_left fun hne => hne hn
                            subst hrest hfollow
                            rw [← h]
                            cases t'.entry (cur ++ [n]) with
                            | none => simp
                            | some e => cases e <;> simp [walk]
                        · exact absurd h (by simp)
                      · intro base path' h
                        split at h <;> exact absurd h (by simp)
                  | some e =>
                      have hn' := hle _ e hn
                      cases e with
                      | file content =>
                          simp only [walk, hcur, hcur', hn, hn']
                          exact ih _
                      | dir =>
                          simp only [walk, hcur, hcur', hn, hn']
                          exact ih _
                      | link absolute target =>
                          simp only [walk, hcur, hcur', hn, hn']
                          exact ⟨fun p h _ => h, fun base path' h => h⟩

/-- **A lookup in a smaller tree has the same result in a larger one**, if it ends at something or follows no link at
    its end. -/
theorem resolve_mono_of {t t' : Tree ν κ} (hle : t ≤ t') {follow : Bool} {a : Nat} {cur p : List ν}
    {path : List (Component ν)} (h : resolve t follow a cur path = some p)
    (hp : t.entry p ≠ none ∨ follow = false) : resolve t' follow a cur path = some p := by
  induction resolves_of_resolve h with
  | arrived hwalk => exact resolve_arrived _ ((walk_mono hle follow _ _).1 _ hwalk hp)
  | @link a _ _ _ _ _ hwalk _ ih =>
      rw [resolve_link_succ a hwalk] at h
      rw [resolve_link_succ a ((walk_mono hle follow _ _).2 _ _ hwalk)]
      exact ih h hp

theorem resolve_mono {t t' : Tree ν κ} (hle : t ≤ t') {follow : Bool} {a : Nat} {cur p : List ν}
    {path : List (Component ν)} (h : resolve t follow a cur path = some p) (hp : t.entry p ≠ none) :
    resolve t' follow a cur path = some p :=
  resolve_mono_of hle h (.inl hp)

/-- More links may be followed than need be. -/
theorem resolve_allowance {t : Tree ν κ} {follow : Bool} {a b : Nat} (hab : a ≤ b) {cur p : List ν}
    {path : List (Component ν)} (h : resolve t follow a cur path = some p) :
    resolve t follow b cur path = some p := by
  induction resolves_of_resolve h generalizing b with
  | arrived hwalk => exact resolve_arrived b hwalk
  | @link a _ _ _ _ _ hwalk _ ih =>
      obtain ⟨c, rfl⟩ := Nat.exists_eq_add_of_le' (Nat.le_trans (Nat.succ_pos a) hab)
      rw [resolve_link_succ a hwalk] at h
      rw [resolve_link_succ c hwalk]
      exact ih (Nat.le_of_succ_le_succ hab) h

/-! ## Paths of names -/

/-- The path of a place, from the root. -/
def pathOf (p : List ν) : List (Component ν) := p.map .name

@[simp] theorem pathOf_append (p q : List ν) : pathOf (p ++ q) = pathOf p ++ pathOf q := List.map_append

/-- A walk down directories. -/
theorem walk_dirs {t : Tree ν κ} (follow : Bool) (cur p : List ν) (rest : List (Component ν))
    (h : t.entry (cur ++ p) = some .dir) : walk t follow cur (pathOf p ++ rest) = walk t follow (cur ++ p) rest := by
  induction p generalizing cur with
  | nil => rw [List.append_nil]; rfl
  | cons n p ih =>
      have hsplit : cur ++ n :: p = cur ++ [n] ++ p := by simp
      have hcur : t.entry cur = some .dir := Tree.dir_of_append (List.cons_ne_nil n p) (by rw [h]; simp)
      have hn : t.entry (cur ++ [n]) = some .dir := by
        rw [hsplit] at h
        by_cases hp : p = []
        · rwa [hp, List.append_nil] at h
        · exact Tree.dir_of_append hp (by rw [h]; simp)
      show walk t follow cur (.name n :: (pathOf p ++ rest)) = _
      simp only [walk, hcur, hn]
      rw [ih (cur ++ [n]) (by rwa [← hsplit]), ← hsplit]

/-- The last step of the walk to a place. -/
theorem walk_place {t : Tree ν κ} (follow : Bool) {p : List ν} {n : ν} (h : t.entry p = some .dir) :
    walk t follow [] (pathOf (p ++ [n]))
      = match t.entry (p ++ [n]) with
        | some (.link absolute target) =>
            if follow = false then .arrived (p ++ [n]) else .link (if absolute then [] else p) target
        | _ => .arrived (p ++ [n]) := by
  have hwalk := walk_dirs follow [] p [.name n] h
  rw [List.nil_append] at hwalk
  rw [pathOf_append]
  show walk t follow [] (pathOf p ++ [.name n]) = _
  rw [hwalk]
  simp only [walk, h]
  cases hn : t.entry (p ++ [n]) with
  | none => rfl
  | some e =>
      cases e with
      | file content => rfl
      | dir => rfl
      | link absolute target =>
          cases follow <;> simp

/-- The path of something leads to its place. -/
theorem resolve_place {t : Tree ν κ} {p : List ν} (a : Nat) (h : t.entry p ≠ none) :
    resolve t false a [] (pathOf p) = some p := by
  cases p using List.reverseRecOn with
  | nil => exact resolve_arrived a rfl
  | append_singleton p n =>
      apply resolve_arrived a
      rw [walk_place false (t.closed p n h)]
      cases t.entry (p ++ [n]) with
      | none => rfl
      | some e => cases e <;> rfl

/-- Also when links are followed, if it is none itself. -/
theorem resolve_place_follow {t : Tree ν κ} {p : List ν} {e : Entry ν κ} (a : Nat) (h : t.entry p = some e)
    (he : e.isLink = false) : resolve t true a [] (pathOf p) = some p := by
  cases p using List.reverseRecOn with
  | nil => exact resolve_arrived a rfl
  | append_singleton p n =>
      apply resolve_arrived a
      rw [walk_place true (t.closed p n (by rw [h]; simp)), h]
      cases e with
      | link absolute target => exact absurd he (by simp [Entry.isLink])
      | _ => rfl

/-- A place that is free in a directory is found too, so that it can be created. -/
theorem resolve_free {t : Tree ν κ} {follow : Bool} {p : List ν} {n : ν} (a : Nat)
    (hdir : t.entry p = some .dir) (hfree : t.entry (p ++ [n]) = none) :
    resolve t follow a [] (pathOf (p ++ [n])) = some (p ++ [n]) := by
  apply resolve_arrived a
  rw [walk_place follow hdir, hfree]

/-! ## Paths that go on below a directory -/

/-- A walk to a directory, continued: it goes on from there, or from the link it met before. -/
theorem walk_append {t : Tree ν κ} (follow : Bool) (cur : List ν) (path : List (Component ν))
    {rest : List (Component ν)} (hrest : rest ≠ []) :
    (∀ d, walk t true cur path = .arrived d → t.entry d = some .dir →
      walk t follow cur (path ++ rest) = walk t follow d rest) ∧
    ∀ base path', walk t true cur path = .link base path' →
      walk t follow cur (path ++ rest) = .link base (path' ++ rest) := by
  induction path generalizing cur with
  | nil =>
      refine ⟨?_, fun base path' h => absurd h (by simp [walk])⟩
      intro d h _
      injection h with h
      rw [h, List.nil_append]
  | cons c path ih =>
      cases hcur : t.entry cur with
      | none => simp [walk, hcur]
      | some e =>
          cases e with
          | file content => simp [walk, hcur]
          | link absolute target => simp [walk, hcur]
          | dir =>
              cases c with
              | here =>
                  simp only [walk, hcur, List.cons_append]
                  exact ih cur
              | parent =>
                  simp only [walk, hcur, List.cons_append]
                  exact ih cur.dropLast
              | name n =>
                  have hne : path ++ rest ≠ [] := by simp [hrest]
                  cases hn : t.entry (cur ++ [n]) with
                  | none =>
                      simp only [walk, hcur, hn, List.cons_append]
                      constructor
                      · intro d h hd
                        split at h
                        · injection h with h
                          rw [← h, hn] at hd
                          exact absurd hd (by simp)
                        · exact absurd h (by simp)
                      · intro base path' h
                        split at h <;> exact absurd h (by simp)
                  | some e =>
                      cases e with
                      | file content =>
                          simp only [walk, hcur, hn, List.cons_append]
                          exact ih _
                      | dir =>
                          simp only [walk, hcur, hn, List.cons_append]
                          exact ih _
                      | link absolute target =>
                          simp only [walk, hcur, hn, List.cons_append, hne, false_and, if_false,
                            Bool.true_eq_false, and_false]
                          refine ⟨fun d h => absurd h (by simp), ?_⟩
                          intro base path' h
                          injection h with hbase hpath
                          rw [hbase, ← hpath, List.append_assoc]

/-- **A path through a directory** is the path from there, with the links on the way used up; so it is in
    every larger tree. -/
theorem resolve_append {t : Tree ν κ} {a : Nat} {cur d : List ν} {path : List (Component ν)}
    (h : resolve t true a cur path = some d) (hd : t.entry d = some .dir) :
    ∃ b ≤ a, ∀ t', t ≤ t' → ∀ follow rest, rest ≠ [] →
      resolve t' follow a cur (path ++ rest) = resolve t' follow b d rest := by
  induction resolves_of_resolve h with
  | @arrived a cur d path hwalk =>
      refine ⟨a, Nat.le_refl a, ?_⟩
      intro t' hle follow rest hrest
      have hwalk' := (walk_mono hle true cur path).1 d hwalk (.inl (by rw [hd]; simp))
      exact resolve_congr _ ((walk_append follow cur path hrest).1 d hwalk' (hle d _ hd))
  | @link a cur base _ path path' hwalk _ ih =>
      rw [resolve_link_succ a hwalk] at h
      obtain ⟨b, hb, hsame⟩ := ih h hd
      refine ⟨b, Nat.le_succ_of_le hb, ?_⟩
      intro t' hle follow rest hrest
      have hwalk' := (walk_mono hle true cur path).2 base path' hwalk
      rw [resolve_link_succ a ((walk_append follow cur path hrest).2 base path' hwalk')]
      exact hsame t' hle follow rest hrest

/-- The path of a directory uses up none. -/
theorem resolve_dirs {t : Tree ν κ} {d : List ν} (follow : Bool) (a : Nat) (rest : List (Component ν))
    (hd : t.entry d = some .dir) :
    resolve t follow a [] (pathOf d ++ rest) = resolve t follow a d rest := by
  have hwalk := walk_dirs follow [] d rest hd
  rw [List.nil_append] at hwalk
  exact resolve_congr a hwalk

/-- The last step from the place of a directory. -/
theorem resolve_last {t : Tree ν κ} {follow : Bool} {d : List ν} {n : ν} (a : Nat) (hd : t.entry d = some .dir)
    (hn : ∀ absolute target, t.entry (d ++ [n]) ≠ some (.link absolute target)) :
    resolve t follow a d [.name n] = some (d ++ [n]) := by
  apply resolve_arrived
  simp only [walk, hd]
  cases hentry : t.entry (d ++ [n]) with
  | none => rfl
  | some e =>
      cases e with
      | link absolute target => exact absurd hentry (hn absolute target)
      | _ => rfl

/-- **A name behind the path of a directory** leads to that name in the directory, if there is no link. -/
theorem resolve_child {t : Tree ν κ} {follow : Bool} {a : Nat} {cur d : List ν} {path : List (Component ν)} {n : ν}
    (h : resolve t true a cur path = some d) (hd : t.entry d = some .dir)
    (hn : ∀ absolute target, t.entry (d ++ [n]) ≠ some (.link absolute target)) :
    resolve t follow a cur (path ++ [.name n]) = some (d ++ [n]) := by
  obtain ⟨b, -, hsame⟩ := resolve_append h hd
  rw [hsame t (le_refl t) follow [.name n] (List.cons_ne_nil _ _)]
  exact resolve_last b hd hn

/-! ## Following the last link -/

/-- Following or not makes a difference only to a link at the end. -/
theorem walk_follow {t : Tree ν κ} (cur : List ν) (path : List (Component ν))
    (hcur : ∀ absolute target, t.entry cur ≠ some (.link absolute target)) :
    (walk t false cur path = .failed → walk t true cur path = .failed) ∧
    (∀ base path', walk t false cur path = .link base path' →
      walk t true cur path = .link base path' ∧ t.entry base = some .dir) ∧
    (∀ q, walk t false cur path = .arrived q →
      (∀ absolute target, t.entry q = some (.link absolute target) →
        walk t true cur path = .link (if absolute then [] else q.dropLast) target ∧ t.entry q.dropLast = some .dir) ∧
      ((∀ absolute target, t.entry q ≠ some (.link absolute target)) → walk t true cur path = .arrived q)) := by
  induction path generalizing cur with
  | nil =>
      refine ⟨fun h => absurd h (by simp [walk]), fun base path' h => absurd h (by simp [walk]), ?_⟩
      intro q h
      injection h with h
      subst h
      exact ⟨fun absolute target hq => absurd hq (hcur absolute target), fun _ => rfl⟩
  | cons c rest ih =>
      cases hdir : t.entry cur with
      | none => simp [walk, hdir]
      | some e =>
          cases e with
          | file content => simp [walk, hdir]
          | link absolute target => exact absurd hdir (hcur absolute target)
          | dir =>
              cases c with
              | here =>
                  simp only [walk, hdir]
                  exact ih cur hcur
              | parent =>
                  simp only [walk, hdir]
                  apply ih cur.dropLast
                  -- above a directory there are directories
                  have hup : t.entry cur.dropLast = some .dir := by
                    cases cur using List.reverseRecOn with
                    | nil => exact t.root
                    | append_singleton cur n =>
                        rw [List.dropLast_concat]
                        exact t.closed cur n (by rw [hdir]; simp)
                  simp [hup]
              | name n =>
                  cases hn : t.entry (cur ++ [n]) with
                  | none =>
                      by_cases hrest : rest = []
                      · simp only [walk, hdir, hn, if_pos hrest]
                        refine ⟨fun h => absurd h (by simp), fun base path' h => absurd h (by simp), ?_⟩
                        intro q h
                        injection h with h
                        subst h
                        exact ⟨fun absolute target hq => absurd hq (by simp [hn]), fun _ => rfl⟩
                      · simp only [walk, hdir, hn, if_neg hrest]
                        exact ⟨fun _ => trivial, fun base path' h => absurd h (by simp),
                          fun q h => absurd h (by simp)⟩
                  | some e =>
                      cases e with
                      | file content =>
                          simp only [walk, hdir, hn]
                          exact ih _ (by simp [hn])
                      | dir =>
                          simp only [walk, hdir, hn]
                          exact ih _ (by simp [hn])
                      | link absolute target =>
                          by_cases hrest : rest = []
                          · subst hrest
                            simp only [walk, hdir, hn, and_self, if_true, List.append_nil]
                            refine ⟨fun h => absurd h (by simp), fun base path' h => absurd h (by simp),
                              fun q h => ?_⟩
                            injection h with h
                            subst h
                            rw [hn, List.dropLast_concat]
                            refine ⟨?_, fun hno => absurd rfl (hno absolute target)⟩
                            intro absolute' target' hq
                            injection hq with hq
                            injection hq with habs htgt
                            subst habs htgt
                            exact ⟨by simp, hdir⟩
                          · simp only [walk, hdir, hn, hrest, false_and, if_false]
                            refine ⟨fun h => absurd h (by simp), fun base path' h => ⟨h, ?_⟩,
                              fun q h => absurd h (by simp)⟩
                            injection h with h
                            rw [← h]
                            split
                            · exact t.root
                            · exact hdir

/-- If the walk itself gets there: the two lookups take the same step. -/
theorem follow_arrived {t : Tree ν κ} {a b : Nat} (hab : a ≤ b) {cur q r : List ν} {path : List (Component ν)}
    (hcur : t.entry cur = some .dir) (hq : walk t false cur path = .arrived q) (hexists : t.entry q ≠ none)
    (hr : resolve t true a cur path = some r) : resolve t true b [] (pathOf q) = some r := by
  obtain ⟨hlink, hother⟩ := (walk_follow cur path (by simp [hcur])).2.2 q hq
  obtain ⟨e, he⟩ := Option.ne_none_iff_exists'.mp hexists
  cases hkind : e.isLink with
  | false =>
      have hno : ∀ absolute target, t.entry q ≠ some (.link absolute target) := by
        intro absolute target heq
        rw [he] at heq
        injection heq with heq
        rw [heq] at hkind
        exact absurd hkind (by simp [Entry.isLink])
      rw [resolve_arrived a (hother hno)] at hr
      injection hr with hr
      rw [← hr]
      exact resolve_place_follow b he hkind
  | true =>
      cases e with
      | file content => exact absurd hkind (by simp [Entry.isLink])
      | dir => exact absurd hkind (by simp [Entry.isLink])
      | link absolute target =>
          obtain ⟨hwalk, hup⟩ := hlink absolute target he
          cases a with
          | zero => rw [resolve_link_zero hwalk] at hr; exact absurd hr (by simp)
          | succ a =>
              rw [resolve_link_succ a hwalk] at hr
              obtain ⟨c, rfl⟩ := Nat.exists_eq_add_of_le' (Nat.le_trans (Nat.succ_pos a) hab)
              have hne : q ≠ [] := by
                rintro rfl
                rw [t.root] at he
                exact absurd he (by simp)
              obtain ⟨p, n, rfl⟩ := (List.eq_nil_or_concat q).resolve_left hne
              rw [List.concat_eq_append] at *
              rw [List.dropLast_concat] at hwalk hup hr
              have hplace := walk_place true hup (n := n)
              rw [he] at hplace
              rw [resolve_link_succ c hplace]
              exact resolve_allowance (Nat.le_of_succ_le_succ hab) hr

/-- **A link leads to the same from wherever it was reached.** -/
theorem follow_place {t : Tree ν κ} {a b : Nat} (hab : a ≤ b) {cur q r : List ν} {path : List (Component ν)}
    (hcur : t.entry cur = some .dir) (hq : resolve t false a cur path = some q) (hexists : t.entry q ≠ none)
    (hr : resolve t true a cur path = some r) : resolve t true b [] (pathOf q) = some r := by
  induction resolves_of_resolve hq generalizing b with
  | arrived hwalk => exact follow_arrived hab hcur hwalk hexists hr
  | @link a cur base _ path path' hwalk _ ih =>
      obtain ⟨hwalk', hbase⟩ := (walk_follow cur path (by simp [hcur])).2.1 base path' hwalk
      rw [resolve_link_succ a hwalk] at hq
      rw [resolve_link_succ a hwalk'] at hr
      exact ih (Nat.le_of_succ_le hab) hbase hq hexists hr

/-- Where there is no link at the end, following makes no difference. -/
theorem resolve_follow {t : Tree ν κ} {a : Nat} {cur p : List ν} {path : List (Component ν)}
    (hcur : t.entry cur = some .dir) (h : resolve t false a cur path = some p)
    (hp : ∀ absolute target, t.entry p ≠ some (.link absolute target)) : resolve t true a cur path = some p := by
  induction resolves_of_resolve h with
  | @arrived a cur p path hwalk =>
      exact resolve_arrived a (((walk_follow cur path (by simp [hcur])).2.2 p hwalk).2 hp)
  | @link a cur base _ path path' hwalk _ ih =>
      obtain ⟨hwalk', hbase⟩ := (walk_follow cur path (by simp [hcur])).2.1 base path' hwalk
      rw [resolve_link_succ a hwalk] at h
      rw [resolve_link_succ a hwalk']
      exact ih hbase h hp

/-- A walk that follows links does not end at one, and every link it meets starts at a directory. -/
theorem walk_not_link {t : Tree ν κ} (cur : List ν) (path : List (Component ν))
    (hcur : ∀ absolute target, t.entry cur ≠ some (.link absolute target)) :
    (∀ q, walk t true cur path = .arrived q → ∀ absolute target, t.entry q ≠ some (.link absolute target)) ∧
    ∀ base path', walk t true cur path = .link base path' → t.entry base = some .dir := by
  have hsame := walk_follow cur path hcur
  cases hw : walk t false cur path with
  | failed => rw [hsame.1 hw]; simp
  | link base path' =>
      obtain ⟨hw', hbase⟩ := hsame.2.1 base path' hw
      rw [hw']
      refine ⟨fun q h => absurd h (by simp), ?_⟩
      intro base' path'' h
      injection h with h
      exact h ▸ hbase
  | arrived q =>
      obtain ⟨hlink, hother⟩ := hsame.2.2 q hw
      by_cases hq : ∃ absolute target, t.entry q = some (.link absolute target)
      · obtain ⟨absolute, target, hq⟩ := hq
        obtain ⟨hw', hup⟩ := hlink absolute target hq
        rw [hw']
        refine ⟨fun q h => absurd h (by simp), ?_⟩
        intro base path' h
        injection h with h
        rw [← h]
        split
        · exact t.root
        · exact hup
      · have hno : ∀ absolute target, t.entry q ≠ some (.link absolute target) :=
          fun absolute target h => hq ⟨absolute, target, h⟩
        rw [hother hno]
        refine ⟨?_, fun base path' h => absurd h (by simp)⟩
        intro q' h
        injection h with h
        exact h ▸ hno

/-- Links that are followed lead to no link. -/
theorem resolve_not_link {t : Tree ν κ} {a : Nat} {cur r : List ν} {path : List (Component ν)}
    (hcur : t.entry cur = some .dir) (h : resolve t true a cur path = some r) :
    ∀ absolute target, t.entry r ≠ some (.link absolute target) := by
  induction resolves_of_resolve h with
  | @arrived a cur r path hwalk => exact (walk_not_link cur path (by simp [hcur])).1 r hwalk
  | @link a cur base _ path path' hwalk _ ih =>
      rw [resolve_link_succ a hwalk] at h
      exact ih ((walk_not_link cur path (by simp [hcur])).2 base path' hwalk) h

/-- **The path of a place where there was nothing** leads there still when there is something, links followed or not. -/
theorem resolve_made {t t' : Tree ν κ} (hle : t ≤ t') {a : Nat} {cur p : List ν} {path : List (Component ν)}
    (hcur : t'.entry cur = some .dir) (h : resolve t false a cur path = some p)
    (hp : ∀ absolute target, t'.entry p ≠ some (.link absolute target)) : resolve t' true a cur path = some p :=
  resolve_follow hcur (resolve_mono_of hle h (.inr rfl)) hp

end FileTree
