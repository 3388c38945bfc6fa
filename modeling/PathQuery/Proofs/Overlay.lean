import Mathlib.Tactic.Tauto
import PathQuery.Json.Merge
import PathQuery.Proofs.JsonOrder

/-!
# What a merged value has at a path

Two values are merged by taking the members of one of them in turn and setting them in the other.
What comes of it is stated by paths of names instead, with no order in which members are set.

**By names.** What an object of the result has under a name is what comes of the two members of this
name (`lookup_mergeMembers`). Merging keeps values canonical.

**The path law.** A path is settled by the value on top (`Settled`) if that has something on the
way which is not merged into an object below it. Then the result has there what the value on top
has. Elsewhere it has what the value below has, and where both have something the two are objects
and become one with the names of both.

Main statements: `appears` and `merge_merge`.
-/

namespace PathQuery.Json

variable {base top v w : Json} {ms bs os : List (String × Json)} {k name : String}
  {p : List String}

/-! ## Merging by names -/

/-- What a member becomes when another one may be laid over it. -/
def layered : Option Json → Option Json → Option Json
  | below, none => below
  | none, some top => some top
  | some below, some top => some (merge below top)

@[simp] theorem layered_none (below : Option Json) : layered below none = below := by
  cases below <;> rfl

@[simp] theorem none_layered (top : Option Json) : layered none top = top := by
  cases top <;> rfl

/-- Whether a value is an object. -/
def isObject : Json → Bool
  | .object _ => true
  | _ => false

theorem isObject_iff : v.isObject = true ↔ ∃ ms, v = .object ms := by
  cases v <;> simp [isObject]

theorem objects_or_not (base top : Json) :
    (∃ bs os, base = .object bs ∧ top = .object os) ∨
      ¬ (base.isObject = true ∧ top.isObject = true) := by
  by_cases hobj : base.isObject = true ∧ top.isObject = true
  · obtain ⟨bs, hbs⟩ := isObject_iff.1 hobj.1
    obtain ⟨os, hos⟩ := isObject_iff.1 hobj.2
    exact Or.inl ⟨bs, os, hbs, hos⟩
  · exact Or.inr hobj

/-- Unless both values are objects, the one on top is kept. -/
theorem merge_of_not_isObject (h : ¬ (base.isObject = true ∧ top.isObject = true)) :
    merge base top = top := by
  cases top <;> cases base <;> first | rfl | exact absurd ⟨rfl, rfl⟩ h

theorem merge_object (bs os : List (String × Json)) :
    merge (.object bs) (.object os) = .object (mergeMembers bs os) := rfl

theorem mergeMembers_cons (bs os : List (String × Json)) (name : String) (v : Json) :
    mergeMembers bs ((name, v) :: os) =
      mergeMembers (insert name ((layered (lookup name bs) (some v)).getD v) bs) os := by
  rw [mergeMembers]
  cases lookup name bs <;> rfl

theorem keys_mergeMembers (bs os : List (String × Json)) (k : String) :
    k ∈ (mergeMembers bs os).map (·.1) ↔ k ∈ bs.map (·.1) ∨ k ∈ os.map (·.1) := by
  induction os generalizing bs with
  | nil => simp [mergeMembers]
  | cons o os ih =>
    obtain ⟨name, v⟩ := o
    rw [mergeMembers_cons, ih, keys_insert, List.map_cons, List.mem_cons]
    tauto

theorem Ordered.mergeMembers (h : Ordered bs) (os : List (String × Json)) :
    Ordered (mergeMembers bs os) := by
  induction os generalizing bs with
  | nil => exact h
  | cons o os ih =>
    rw [mergeMembers_cons]
    exact ih (h.insert _ _)

/-- **A member of the result is what the members of its name become.** -/
theorem lookup_mergeMembers (bs : List (String × Json)) (h : Ordered os) (k : String) :
    lookup k (mergeMembers bs os) = layered (lookup k bs) (lookup k os) := by
  induction os generalizing bs with
  | nil => simp [mergeMembers, lookup]
  | cons o os ih =>
    obtain ⟨name, v⟩ := o
    rw [mergeMembers_cons, ih _ h.tail, lookup_insert, lookup_cons]
    by_cases hk : name = k
    · subst hk
      -- the name does not come again, so nothing is laid over it later
      rw [if_pos rfl, if_pos rfl, h.lookup_tail le_rfl, layered_none]
      cases lookup name bs <;> rfl
    · rw [if_neg (Ne.symm hk), if_neg hk]

/-- Laid over nothing, members stay as they are. -/
theorem mergeMembers_nil (h : Ordered os) : mergeMembers [] os = os := by
  have hnil : Ordered [] := List.Pairwise.nil
  apply (hnil.mergeMembers os).ext h
  intro k
  rw [lookup_mergeMembers [] h]
  exact none_layered _

/-- A property that passes from the members of an object to the object holds of every value. -/
theorem memberInduction {P : Json → Prop}
    (h : ∀ j, (∀ ms k v, j = .object ms → lookup k ms = some v → P v) → P j) (j : Json) : P j := by
  apply h
  intro ms k v hj hk
  have hlt : sizeOf v < sizeOf j := by
    have hms := sizeOf_lt_of_lookup hk
    rw [hj, object.sizeOf_spec]
    omega
  exact memberInduction h v
termination_by sizeOf j

/-- Merging canonical values gives a canonical one. -/
theorem Canonical.merge (hb : base.Canonical) (ht : top.Canonical) :
    (merge base top).Canonical := by
  induction top using memberInduction generalizing base with
  | h top ih =>
    rcases objects_or_not base top with ⟨bs, os, rfl, rfl⟩ | hobj
    · rw [merge_object]
      have hordered : Ordered (mergeMembers bs os) := hb.1.mergeMembers os
      apply canonical_object hordered
      intro k v hk
      rw [lookup_mergeMembers bs ht.1] at hk
      cases hok : lookup k os with
      | none =>
        rw [hok, layered_none] at hk
        exact hb.2.lookup hk
      | some t =>
        have htc : t.Canonical := ht.2.lookup hok
        cases hbk : lookup k bs with
        | none =>
          rw [hbk, hok, none_layered] at hk
          cases hk
          exact htc
        | some w =>
          rw [hbk, hok] at hk
          cases hk
          exact ih os k t rfl hok (hb.2.lookup hbk) htc
    · rw [merge_of_not_isObject hobj]
      exact ht

/-- A canonical value laid over itself is itself. -/
theorem merge_self (h : v.Canonical) : Json.merge v v = v := by
  induction v using memberInduction with
  | h v ih =>
    by_cases hobj : v.isObject = true
    · obtain ⟨ms, rfl⟩ := isObject_iff.1 hobj
      rw [merge_object]
      congr 1
      apply (h.1.mergeMembers ms).ext h.1
      intro k
      rw [lookup_mergeMembers ms h.1]
      cases hk : lookup k ms with
      | none => rfl
      | some w => exact congrArg some (ih ms k w rfl hk (h.2.lookup hk))
    · exact merge_of_not_isObject fun hboth => hobj hboth.1

/-- **Laying a value over the result again changes nothing.** -/
theorem merge_merge (hb : base.Canonical) (ht : top.Canonical) :
    merge (merge base top) top = merge base top := by
  induction top using memberInduction generalizing base with
  | h top ih =>
    rcases objects_or_not base top with ⟨bs, os, rfl, rfl⟩ | hobj
    · simp only [merge_object]
      congr 1
      have hordered : Ordered (mergeMembers bs os) := hb.1.mergeMembers os
      apply (hordered.mergeMembers os).ext hordered
      intro k
      rw [lookup_mergeMembers _ ht.1, lookup_mergeMembers bs ht.1]
      cases hok : lookup k os with
      | none => rw [layered_none, layered_none]
      | some t =>
        have htc : t.Canonical := ht.2.lookup hok
        cases hbk : lookup k bs with
        | none => exact congrArg some (merge_self htc)
        | some w => exact congrArg some (ih os k t rfl hok (hb.2.lookup hbk) htc)
    · rw [merge_of_not_isObject hobj]
      exact merge_self ht

/-! ## Paths -/

/-- What a value has at a path of names. -/
def at? (j : Json) : List String → Option Json
  | [] => some j
  | k :: p =>
    match j with
    | .object members => (lookup k members).bind (at? · p)
    | _ => none

theorem at_object (ms : List (String × Json)) (k : String) (p : List String) :
    (object ms).at? (k :: p) = (lookup k ms).bind (at? · p) := rfl

/-- Whether what a value has on the way to a path, the path included, is not merged into an object
below it. -/
def Settled (base top : Json) (p : List String) : Prop :=
  ∃ q, q <+: p ∧ ∃ v, top.at? q = some v ∧
    ¬ (v.isObject = true ∧ ∃ w, base.at? q = some w ∧ w.isObject = true)

theorem settled_of_not_isObject (h : ¬ (base.isObject = true ∧ top.isObject = true))
    (p : List String) : Settled base top p := by
  refine ⟨[], List.nil_prefix, top, rfl, ?_⟩
  rintro ⟨htop, w, hw, hobj⟩
  cases hw
  exact h ⟨hobj, htop⟩

theorem not_settled_nil (bs os : List (String × Json)) :
    ¬ Settled (.object bs) (.object os) [] := by
  rintro ⟨q, hq, v, hv, hnot⟩
  obtain rfl := List.prefix_nil.1 hq
  cases hv
  exact hnot ⟨rfl, _, rfl, rfl⟩

/-- Under two objects, a path is settled by the members of its first name. -/
theorem settled_cons_iff : Settled (.object bs) (.object os) (k :: p) ↔
    ∃ t, lookup k os = some t ∧ ∀ w, lookup k bs = some w → Settled w t p := by
  constructor
  · rintro ⟨q, hq, v, hv, hnot⟩
    rcases List.prefix_cons_iff.1 hq with rfl | ⟨q, rfl, hq⟩
    · cases hv
      exact absurd ⟨rfl, _, rfl, rfl⟩ hnot
    · rw [at_object, Option.bind_eq_some_iff] at hv
      obtain ⟨t, ht, hv⟩ := hv
      refine ⟨t, ht, fun w hw => ⟨q, (List.cons_prefix_cons.1 hq).2, v, hv, ?_⟩⟩
      rwa [at_object, hw, Option.bind_some] at hnot
  · rintro ⟨t, ht, h⟩
    cases hw : lookup k bs with
    | none =>
      refine ⟨[k], ?_, t, ?_, ?_⟩
      · simp
      · rw [at_object, ht]
        rfl
      · rw [at_object, hw]
        rintro ⟨-, w, hw, -⟩
        cases hw
    | some w =>
      obtain ⟨q, hq, v, hv, hnot⟩ := h w hw
      refine ⟨k :: q, List.cons_prefix_cons.2 ⟨rfl, hq⟩, v, ?_, ?_⟩
      · rwa [at_object, ht]
      · rwa [at_object, hw]

/-- What the result has at a path. -/
structure Appears (base top : Json) (p : List String) : Prop where
  settled : Settled base top p → (merge base top).at? p = top.at? p
  kept : ¬ Settled base top p → top.at? p = none → (merge base top).at? p = base.at? p
  united : ¬ Settled base top p → top.at? p ≠ none → ∃ bs os ms,
    base.at? p = some (.object bs) ∧ top.at? p = some (.object os) ∧
      (merge base top).at? p = some (.object ms) ∧
      ∀ k, k ∈ ms.map (·.1) ↔ k ∈ bs.map (·.1) ∨ k ∈ os.map (·.1)

theorem appears_of_not_isObject (h : ¬ (base.isObject = true ∧ top.isObject = true))
    (p : List String) : Appears base top p := by
  have hset := settled_of_not_isObject h p
  constructor
  · intro _
    rw [merge_of_not_isObject h]
  · exact fun hnot => absurd hset hnot
  · exact fun hnot => absurd hset hnot

theorem appears_object_nil (bs os : List (String × Json)) :
    Appears (.object bs) (.object os) [] := by
  constructor
  · intro h
    exact absurd h (not_settled_nil bs os)
  · intro _ h
    cases h
  · intro _ _
    exact ⟨bs, os, mergeMembers bs os, rfl, rfl, rfl, keys_mergeMembers bs os⟩

/-- The law for a path from two objects follows from that for the rest of it, from the members of
its first name on. -/
theorem appears_object_cons (ho : Ordered os)
    (h : ∀ w t, lookup k bs = some w → lookup k os = some t → Appears w t p) :
    Appears (.object bs) (.object os) (k :: p) := by
  have hmerged : (merge (.object bs) (.object os)).at? (k :: p) =
      (layered (lookup k bs) (lookup k os)).bind (at? · p) := by
    rw [merge_object, at_object, lookup_mergeMembers bs ho]
  cases hok : lookup k os with
  | none =>
    -- the value on top says nothing here, at this name or below it
    have htop : (object os).at? (k :: p) = none := by rw [at_object, hok, Option.bind_none]
    constructor
    · intro hset
      obtain ⟨t, hsome, -⟩ := settled_cons_iff.1 hset
      rw [hok] at hsome
      cases hsome
    · intro _ _
      rw [hmerged, hok, layered_none, at_object]
    · intro _ hsome
      exact absurd htop hsome
  | some t =>
    have htop : (object os).at? (k :: p) = t.at? p := by rw [at_object, hok, Option.bind_some]
    cases hbk : lookup k bs with
    | none =>
      have hset : Settled (.object bs) (.object os) (k :: p) := by
        simp [settled_cons_iff, hok, hbk]
      constructor
      · intro _
        rw [hmerged, htop, hbk, hok, none_layered, Option.bind_some]
      · exact fun hnot => absurd hset hnot
      · exact fun hnot => absurd hset hnot
    | some w =>
      have hset : Settled (.object bs) (.object os) (k :: p) ↔ Settled w t p := by
        simp [settled_cons_iff, hok, hbk]
      have hbase : (object bs).at? (k :: p) = w.at? p := by rw [at_object, hbk, Option.bind_some]
      have hboth : (merge (.object bs) (.object os)).at? (k :: p) = (merge w t).at? p := by
        rw [hmerged, hbk, hok]
        rfl
      have hrest : Appears w t p := h w t hbk hok
      constructor
      · rw [hset, hboth, htop]
        exact hrest.settled
      · rw [hset, hboth, htop, hbase]
        exact hrest.kept
      · rw [hset, hboth, htop, hbase]
        exact hrest.united

/-- **The path law.** -/
theorem appears (ht : top.Canonical) (base : Json) (p : List String) : Appears base top p := by
  induction p generalizing base top with
  | nil =>
    rcases objects_or_not base top with ⟨bs, os, rfl, rfl⟩ | hobj
    · exact appears_object_nil bs os
    · exact appears_of_not_isObject hobj []
  | cons k p ih =>
    rcases objects_or_not base top with ⟨bs, os, rfl, rfl⟩ | hobj
    · apply appears_object_cons ht.1
      intro w t _ hok
      exact ih (ht.2.lookup hok) w
    · exact appears_of_not_isObject hobj (k :: p)

example : merge
    (.object [("a", .object [("b", .int 1), ("c", .int 2)]), ("d", .int 3)])
    (.object [("a", .object [("b", .int 10)]), ("e", .null)]) =
    .object [("a", .object [("b", .int 10), ("c", .int 2)]), ("d", .int 3), ("e", .null)] := by
  rfl

end PathQuery.Json
