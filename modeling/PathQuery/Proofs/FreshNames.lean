import Mathlib.Order.Bounds.Defs
import PathQuery.Proofs.Naming

/-!
# Generated names are fresh

Values are bound one after the other, each under its user's name or under a generated one. A
generated name is searched from the next number on, and the search goes on for as long as it meets
names that are reserved or in the list (`Searches`). It has no bound of its own. It ends because
only finitely many names are taken and different numbers have different names.

**No number is passed over.** A number behind the search has a name that was reserved or was in the
list when the search passed it, and names are never taken off the list (`Passed`). So a generated
name has the least number of all names that are free, and the numbers of later names are greater.

**Names under the named style.** A user's name that is in the list is not bound again. If users'
names are reserved, no generated name is one of them, so all names in the list differ (`Apart`).

Main statement: `bindsFreshly`.
-/

namespace PathQuery.ParameterList

variable {l : ParameterList} {taken : List String} {name : Option String} {v : Value} {k m n : Nat}
  {slots : List (Option String × Value)}

/-! ## The search -/

/-- Whether a search that has come to a number ends at another one. -/
inductive Searches (taken : List String) : Nat → Nat → Prop
  | free {n : Nat} (hn : generated n ∉ taken) : Searches taken n n
  | skip {n m : Nat} (hn : generated n ∈ taken) (rest : Searches taken (n + 1) m) :
    Searches taken n m

/-- The search ends at the first number whose name is free. -/
theorem searches_iff : Searches taken n m ↔
    n ≤ m ∧ generated m ∉ taken ∧ ∀ k, n ≤ k → k < m → generated k ∈ taken := by
  constructor
  · intro h
    induction h with
    | free hn => exact ⟨Nat.le_refl _, hn, fun k hk hlt => absurd hlt (Nat.not_lt.2 hk)⟩
    | @skip n m hn _ ih =>
      obtain ⟨hle, hfree, hall⟩ := ih
      refine ⟨by omega, hfree, ?_⟩
      intro k hk hlt
      by_cases hkn : k = n
      · rw [hkn]
        exact hn
      · exact hall k (by omega) hlt
  · rintro ⟨hle, hfree, hall⟩
    obtain ⟨d, rfl⟩ := Nat.exists_eq_add_of_le hle
    induction d generalizing n with
    | zero => exact .free hfree
    | succ d ih =>
      apply Searches.skip (hall n (Nat.le_refl n) (by omega))
      have hnext : n + (d + 1) = n + 1 + d := by omega
      rw [hnext] at hfree hall ⊢
      exact ih (by omega) hfree fun k hk => hall k (by omega)

/-- The search from the next number ends at the number of the generated name, and at no other. -/
theorem searches_next_iff : Searches l.taken l.nextNumber n ↔ n = l.freshNumber := by
  have hfresh : Searches l.taken l.nextNumber l.freshNumber := searches_iff.2
    ⟨le_freeNumber _ _ _, l.generated_freshNumber_not_mem, fun _ => mem_of_lt_freeNumber⟩
  obtain ⟨hle, hfree, hall⟩ := searches_iff.1 hfresh
  constructor
  · intro h
    obtain ⟨hle', hfree', hall'⟩ := searches_iff.1 h
    rcases Nat.lt_trichotomy n l.freshNumber with hlt | heq | hlt
    · exact absurd (hall n hle' hlt) hfree'
    · exact heq
    · exact absurd (hall' _ hle hlt) hfree
  · intro h
    rw [h]
    exact hfresh

/-! ## Numbers behind the search -/

theorem taken_eq (l : ParameterList) : l.taken = l.reserved ++ l.bound := rfl

/-- A name that is taken stays taken. -/
theorem taken_subset_push (l : ParameterList) (name : Option String) (v : Value) :
    l.taken ⊆ (l.push name v).2.taken := by
  rcases push_snd l name v with ⟨heq, -⟩ | ⟨he, -, hres, -⟩
  · simp [heq]
  · intro x hx
    simp only [taken, parameters, he, hres, List.mem_append, List.map_append] at hx ⊢
    exact hx.imp_right Or.inl

theorem nextNumber_pushNamed (l : ParameterList) (n : String) (v : Value) :
    (l.push (some n) v).2.nextNumber = l.nextNumber := by
  rw [push, pushNamed]
  split <;> rfl

theorem nextNumber_pushGenerated (l : ParameterList) (v : Value) :
    (l.push none v).2.nextNumber = l.freshNumber + 1 := rfl

theorem entries_pushGenerated (l : ParameterList) (v : Value) :
    (l.push none v).2.entries = l.entries ++ [(⟨generated l.freshNumber, v⟩, false)] := rfl

/-- Whether the names of all numbers behind the search are taken. -/
structure Passed (l : ParameterList) : Prop where
  pos : 0 < l.nextNumber
  taken : ∀ k, 0 < k → k < l.nextNumber → generated k ∈ l.taken

theorem Passed.push (h : l.Passed) (name : Option String) (v : Value) :
    (l.push name v).2.Passed := by
  cases name with
  | some n =>
    constructor
    · rw [nextNumber_pushNamed]
      exact h.pos
    · intro k hpos hk
      rw [nextNumber_pushNamed] at hk
      exact l.taken_subset_push _ v (h.taken k hpos hk)
  | none =>
    refine ⟨Nat.succ_pos _, fun k hpos hk => ?_⟩
    rw [nextNumber_pushGenerated] at hk
    by_cases hfresh : k = l.freshNumber
    · subst hfresh
      simp [ParameterList.taken, parameters, entries_pushGenerated]
    · apply l.taken_subset_push none v
      by_cases hnext : k < l.nextNumber
      · exact h.taken k hpos hnext
      · exact mem_of_lt_freeNumber (Nat.le_of_not_lt hnext) (show k < l.freshNumber by omega)

/-- A generated name has the least number whose name is free. -/
theorem Passed.isLeast (h : l.Passed) :
    IsLeast {n | 0 < n ∧ generated n ∉ l.taken} l.freshNumber := by
  have hle : l.nextNumber ≤ l.freshNumber := le_freeNumber _ _ _
  refine ⟨⟨Nat.lt_of_lt_of_le h.pos hle, l.generated_freshNumber_not_mem⟩, ?_⟩
  rintro n ⟨hpos, hfree⟩
  by_contra hlt
  apply hfree
  by_cases hnext : n < l.nextNumber
  · exact h.taken n hpos hnext
  · exact mem_of_lt_freeNumber (Nat.le_of_not_lt hnext) (Nat.lt_of_not_le hlt)

/-! ## Numbers of a run -/

/-- The list after the values of some slots, from an empty one on. -/
def ofSlots (style : ParameterStyle) (reserved : List String)
    (slots : List (Option String × Value)) : ParameterList :=
  (empty style reserved).pushAll slots

/-- The numbers of the names that are generated for some slots. -/
def numbers (l : ParameterList) : List (Option String × Value) → List Nat
  | [] => []
  | (none, v) :: rest => l.freshNumber :: numbers (l.push none v).2 rest
  | (some n, v) :: rest => numbers (l.push (some n) v).2 rest

theorem nextNumber_le_of_mem_numbers (h : n ∈ l.numbers slots) : l.nextNumber ≤ n := by
  induction slots generalizing l with
  | nil => cases h
  | cons s rest ih =>
    obtain ⟨name, v⟩ := s
    cases name with
    | some name =>
      have hle := ih h
      rwa [nextNumber_pushNamed] at hle
    | none =>
      have hfresh : l.nextNumber ≤ l.freshNumber := le_freeNumber _ _ _
      rcases List.mem_cons.1 h with rfl | hrest
      · exact hfresh
      · have hle := ih hrest
        rw [nextNumber_pushGenerated] at hle
        omega

/-- A later name has a greater number. -/
theorem pairwise_numbers (l : ParameterList) (slots : List (Option String × Value)) :
    (l.numbers slots).Pairwise (· < ·) := by
  induction slots generalizing l with
  | nil => exact .nil
  | cons s rest ih =>
    obtain ⟨name, v⟩ := s
    cases name with
    | some name => exact ih _
    | none =>
      refine List.Pairwise.cons ?_ (ih _)
      intro n hn
      exact nextNumber_le_of_mem_numbers hn

/-- The generated names in the list, in their order. -/
def generatedNames (l : ParameterList) : List String :=
  (l.entries.filter (!·.2)).map (·.1.name)

/-- The generated names are those of the numbers that were drawn. -/
theorem generatedNames_pushAll (l : ParameterList) (slots : List (Option String × Value)) :
    (l.pushAll slots).generatedNames = l.generatedNames ++ (l.numbers slots).map generated := by
  induction slots generalizing l with
  | nil => simp [numbers]
  | cons s rest ih =>
    obtain ⟨name, v⟩ := s
    rw [pushAll_cons, ih]
    cases name with
    | none => simp [generatedNames, entries_pushGenerated, numbers]
    | some name =>
      have hkeep : (l.push (some name) v).2.generatedNames = l.generatedNames := by
        rcases push_snd l (some name) v with ⟨heq, -⟩ | ⟨he, -⟩
        · rw [heq]
        · simp [generatedNames, he]
      rw [hkeep, numbers]

/-- The generated names all differ. -/
theorem nodup_generated_numbers (l : ParameterList) (slots : List (Option String × Value)) :
    ((l.numbers slots).map generated).Nodup := by
  apply List.Nodup.map fun _ _ => generated_injective
  exact (l.pairwise_numbers slots).imp Nat.ne_of_lt

theorem Passed.pushAll (h : l.Passed) : (l.pushAll slots).Passed := by
  induction slots generalizing l with
  | nil => exact h
  | cons s rest ih => exact ih (h.push s.1 s.2)

theorem passed_empty (style : ParameterStyle) (reserved : List String) :
    (empty style reserved).Passed :=
  ⟨Nat.one_pos, fun _ hpos hk => absurd hpos (Nat.not_lt.2 (Nat.le_of_lt_succ hk))⟩

theorem reserved_pushAll (l : ParameterList) (slots : List (Option String × Value)) :
    (l.pushAll slots).reserved = l.reserved := by
  induction slots generalizing l with
  | nil => rfl
  | cons s rest ih => rw [pushAll_cons, ih, reserved_push]

/-! ## Names under the named style -/

/-- Under the named style, a list whose names differ and whose generated names are not reserved. -/
structure Apart (l : ParameterList) : Prop where
  style : l.style = .named
  generated : ∀ {p}, (p, false) ∈ l.entries → p.name ∉ l.reserved
  nodup : l.bound.Nodup

theorem Apart.empty (reserved : List String) : Apart (empty .named reserved) :=
  ⟨rfl, fun h => (nomatch h), List.nodup_nil⟩

/-- A reserved name is in the list only as a user's name. -/
theorem Apart.isBound_of_mem (h : l.Apart) {x : String} (hres : x ∈ l.reserved)
    (hmem : x ∈ l.bound) : l.isBound x = true := by
  obtain ⟨p, hp, rfl⟩ := List.mem_map.1 hmem
  obtain ⟨⟨q, user⟩, he, rfl⟩ := List.mem_map.1 hp
  cases user with
  | true => exact List.any_eq_true.2 ⟨(q, true), he, by simp⟩
  | false => exact absurd hres (h.generated he)

/-- A name that is bound anew is not in the list. -/
theorem Apart.nameFor_not_mem (h : l.Apart) (hres : ∀ x, name = some x → x ∈ l.reserved)
    (hnew : ∀ x, name = some x → l.style = .named → l.isBound x = false) :
    l.nameFor name ∉ l.bound := by
  intro hmem
  cases name with
  | none => exact l.generated_freshNumber_not_mem (List.mem_append_right _ hmem)
  | some x =>
    have hbound := h.isBound_of_mem (hres x rfl) hmem
    simp [hnew x rfl h.style] at hbound

theorem Apart.push (h : l.Apart) (hres : ∀ x, name = some x → x ∈ l.reserved) :
    (l.push name v).2.Apart := by
  rcases push_snd l name v with ⟨heq, -⟩ | ⟨he, hstyle, hreserved, hnew⟩
  · rw [heq]
    exact h
  · refine ⟨hstyle.trans h.style, fun {p} hp => ?_, ?_⟩
    · rw [hreserved]
      rw [he, List.mem_append, List.mem_singleton] at hp
      rcases hp with hp | hp
      · exact h.generated hp
      · cases name with
        | some x => cases hp
        | none =>
          cases hp
          exact fun hmem => l.generated_freshNumber_not_mem (List.mem_append_left _ hmem)
    · have hbound : (l.push name v).2.bound = l.bound ++ [l.nameFor name] := by
        simp [bound, parameters, he]
      rw [hbound, ← List.concat_eq_append]
      exact h.nodup.concat (h.nameFor_not_mem hres hnew)

theorem Apart.pushAll (h : l.Apart)
    (hres : ∀ s ∈ slots, ∀ x, s.1 = some x → x ∈ l.reserved) : (l.pushAll slots).Apart := by
  induction slots generalizing l with
  | nil => exact h
  | cons s rest ih =>
    rw [List.forall_mem_cons] at hres
    apply ih (h.push hres.1)
    rw [reserved_push]
    exact hres.2

/-! ## All runs -/

/-- How names are generated while the values of some slots are bound, and for the next value. -/
structure BindsFreshly (style : ParameterStyle) (reserved : List String)
    (slots : List (Option String × Value)) : Prop where
  /-- The search for the next generated name ends, at one number. -/
  ends : ∀ n, Searches (ofSlots style reserved slots).taken
    (ofSlots style reserved slots).nextNumber n ↔ n = (ofSlots style reserved slots).freshNumber
  /-- The next value without a name is bound under the name of this number. -/
  binds : ∀ v, ((ofSlots style reserved slots).push none v).2.entries =
    (ofSlots style reserved slots).entries ++
      [(⟨generated (ofSlots style reserved slots).freshNumber, v⟩, false)]
  /-- It is the least number whose name is neither reserved nor in the list. -/
  least : IsLeast {n | 0 < n ∧ generated n ∉ reserved ∧
      generated n ∉ (ofSlots style reserved slots).bound}
    (ofSlots style reserved slots).freshNumber
  /-- The generated names in the list are those of the numbers that were drawn, in their order. -/
  drawn : (ofSlots style reserved slots).generatedNames =
    ((empty style reserved).numbers slots).map generated
  /-- The numbers grow, also with the next one. -/
  grows : ((empty style reserved).numbers slots ++
    [(ofSlots style reserved slots).freshNumber]).Pairwise (· < ·)
  /-- So the generated names differ from each other. -/
  differ : (ofSlots style reserved slots).generatedNames.Nodup
  /-- Under the named style all names in the list differ, if users' names are reserved. -/
  apart : style = .named → (∀ s ∈ slots, ∀ x, s.1 = some x → x ∈ reserved) →
    (ofSlots style reserved slots).bound.Nodup

theorem numbers_append_none (l : ParameterList) (slots : List (Option String × Value)) (v : Value) :
    l.numbers (slots ++ [(none, v)]) = l.numbers slots ++ [(l.pushAll slots).freshNumber] := by
  induction slots generalizing l with
  | nil => rfl
  | cons s rest ih =>
    obtain ⟨name, w⟩ := s
    cases name <;> simp [numbers, ih]

/-- **Generated names are fresh**, whatever is reserved and whatever is bound. -/
theorem bindsFreshly (style : ParameterStyle) (reserved : List String)
    (slots : List (Option String × Value)) : BindsFreshly style reserved slots where
  ends _ := searches_next_iff
  binds _ := rfl
  least := by
    have hpassed : (ofSlots style reserved slots).Passed := (passed_empty style reserved).pushAll
    have hreserved : (ofSlots style reserved slots).reserved = reserved := reserved_pushAll _ _
    simpa [taken_eq, hreserved] using hpassed.isLeast
  drawn := by
    rw [ofSlots, generatedNames_pushAll]
    rfl
  grows := by
    rw [ofSlots, ← numbers_append_none _ _ .null]
    exact pairwise_numbers _ _
  differ := by
    rw [ofSlots, generatedNames_pushAll]
    exact nodup_generated_numbers _ slots
  apart hstyle hres := by
    subst hstyle
    exact ((Apart.empty reserved).pushAll hres).nodup

/-- The first number is reserved, the second one is a user's name when the search comes to it, and
the third one is bound by a user after it was drawn. -/
example : (ofSlots .positional ["p1"]
    [(some "p2", .null), (none, .null), (some "p3", .null), (none, .null)]).bound =
      ["p2", "p3", "p3", "p4"] := by
  decide +kernel

/-- Under the named style a user's name is bound once. -/
example : (ofSlots .named ["x", "p1"]
    [(some "x", .null), (none, .null), (some "x", .null)]).bound = ["x", "p2"] := by
  decide +kernel

end PathQuery.ParameterList
