import Mathlib.Data.List.Induction
import Mathlib.Data.List.Nodup
import Mathlib.Logic.Function.Basic
import PathQuery.Schema.Registry

/-!
# Two ways to look up a property

A property is looked up in two ways: by the index of a registered type (`Registry.resolve?`), and
along the list of its properties (`MappedType.find?`). The index is filled in the order of
declaration, and each position is put in the place of what stood under the same name, so it holds
the *last* declaration of a name. The list is searched from its start, which gives the *first*.

Both know the same names, and an index never points outside the list. They agree on a name exactly
if its first and its last declaration land on the same thing, so they agree on every name of a type
that declares none twice; for a name that is declared twice they can differ (`first_last_differ`).

Main statement: `looksUp`.
-/

namespace PathQuery

/-- Where a property lands. -/
def Property.lands (p : Property) : Resolved := ⟨p.type.target, p.type.isCollection⟩

theorem getLast?_filter_eq {α : Type} (p : α → Bool) (l : List α) :
    (l.filter p).getLast? = l.reverse.find? p := by
  rw [List.getLast?_eq_head?_reverse, ← List.filter_reverse, List.head?_filter]

theorem map_getLast?_eq_map_head?_iff {α β : Type} (f : α → β) (l : List α) :
    l.getLast?.map f = l.head?.map f ↔ ∀ a ∈ l.head?, ∀ b ∈ l.getLast?, f b = f a := by
  cases l with
  | nil => simp
  | cons a l =>
    rw [List.getLast?_eq_some_getLast (List.cons_ne_nil a l), List.head?_cons]
    simp

namespace MappedType

variable {t : MappedType} {name : String} {i : Nat} {p q : Property}

/-- The declarations of a name in their order. -/
def declared (t : MappedType) (name : String) : List Property :=
  t.properties.filter (·.name == name)

theorem mem_declared : p ∈ t.declared name ↔ p ∈ t.properties ∧ p.name = name := by
  rw [declared, List.mem_filter, beq_iff_eq]

theorem find?_eq_head? (t : MappedType) (name : String) :
    t.find? name = (t.declared name).head? := by
  rw [declared, List.head?_filter, find?]

/-! ## The index -/

/-- An index that is filled position by position: each is put under the name of its property, in the
place of what stood there. -/
def filled (ps : List (Property × Nat)) : String → Option Nat :=
  ps.foldl (fun index p => Function.update index p.1.name (some p.2)) fun _ => none

theorem filled_eq (ps : List (Property × Nat)) (name : String) :
    filled ps name = (ps.reverse.find? fun p => p.1.name == name).map (·.2) := by
  induction ps using List.reverseRecOn with
  | nil => rfl
  | append_singleton ps p ih =>
    rw [List.reverse_concat, List.find?_cons]
    by_cases h : p.1.name = name
    · simp [filled, h]
    · have hne : (p.1.name == name) = false := by simpa using h
      rw [hne, ← ih, filled, List.foldl_concat, Function.update_of_ne (Ne.symm h), filled]

theorem indexOf?_eq_filled (t : MappedType) (name : String) :
    t.indexOf? name = filled t.properties.zipIdx name := (filled_eq _ _).symm

/-- An index points to a property of the name. -/
theorem getElem?_of_indexOf? (h : t.indexOf? name = some i) :
    ∃ p, t.properties[i]? = some p ∧ p.name = name := by
  rw [indexOf?, Option.map_eq_some_iff] at h
  obtain ⟨x, hx, rfl⟩ := h
  have hmem : x ∈ t.properties.zipIdx := List.mem_reverse.1 (List.mem_of_find?_eq_some hx)
  have hname : x.1.name = name := by simpa using List.find?_some hx
  exact ⟨x.1, List.mem_zipIdx_iff_getElem?.1 hmem, hname⟩

/-- The index gives the last declaration of a name. -/
theorem indexed?_eq_getLast? (t : MappedType) (name : String) :
    t.indexed? name = (t.declared name).getLast? := by
  have hfst : t.properties.reverse = t.properties.zipIdx.reverse.map (·.1) := by
    rw [List.map_reverse, List.zipIdx_map_fst]
  rw [declared, getLast?_filter_eq, hfst, List.find?_map, indexed?, indexOf?]
  show _ = (t.properties.zipIdx.reverse.find? fun x => x.1.name == name).map (·.1)
  cases hx : t.properties.zipIdx.reverse.find? fun x => x.1.name == name with
  | none => rfl
  | some x =>
    have hmem : x ∈ t.properties.zipIdx := List.mem_reverse.1 (List.mem_of_find?_eq_some hx)
    exact List.mem_zipIdx_iff_getElem?.1 hmem

/-- Both ways know the same names. -/
theorem indexed?_eq_none_iff : t.indexed? name = none ↔ t.find? name = none := by
  rw [indexed?_eq_getLast?, find?_eq_head?, List.getLast?_eq_none_iff, List.head?_eq_none_iff]

/-- Where no name is declared twice, the first declaration of a name is its last. -/
theorem indexed?_eq_find? (h : (t.properties.map (·.name)).Nodup) (name : String) :
    t.indexed? name = t.find? name := by
  cases hf : t.find? name with
  | none => exact indexed?_eq_none_iff.2 hf
  | some p =>
    cases hi : t.indexed? name with
    | none =>
      rw [indexed?_eq_none_iff.1 hi] at hf
      cases hf
    | some q =>
      rw [find?_eq_head?] at hf
      rw [indexed?_eq_getLast?] at hi
      obtain ⟨hp, hpname⟩ := mem_declared.1 (List.mem_of_head? hf)
      obtain ⟨hq, hqname⟩ := mem_declared.1 (List.mem_of_getLast? hi)
      rw [List.inj_on_of_nodup_map h hq hp (hqname.trans hpname.symm)]

end MappedType

namespace Registry

variable {t : MappedType} {ts : List MappedType} {type name : String}

/-- The type that was registered last under a name. -/
def lastUnder (ts : List MappedType) (name : String) : Option MappedType :=
  (ts.filter (·.name == name)).getLast?

/-- A name stands for the type that was registered last under it. -/
theorem get?_ofList (ts : List MappedType) (name : String) :
    (ofList ts).get? name = lastUnder ts name := by
  rw [lastUnder, getLast?_filter_eq]
  induction ts using List.reverseRecOn with
  | nil => rfl
  | append_singleton ts t ih =>
    have hlast : ofList (ts ++ [t]) = (ofList ts).register t := by
      rw [ofList, List.foldl_concat, ofList]
    rw [hlast, get?_register, List.reverse_concat, List.find?_cons]
    by_cases h : t.name = name
    · simp [h]
    · have hne : (t.name == name) = false := by simpa using h
      rw [if_neg h, ih, hne]

/-- What a registry makes of the types that are registered in it one after the other. -/
structure LooksUp (ts : List MappedType) : Prop where
  /-- A name stands for the type that was registered last under it. -/
  latest : ∀ name, (ofList ts).get? name = lastUnder ts name
  /-- The index of a type is the one that is filled with its properties in their order. -/
  filled : ∀ t ∈ ts, ∀ name, t.indexOf? name = MappedType.filled t.properties.zipIdx name
  /-- It points to a property of the name, and never outside the list. -/
  inRange : ∀ t ∈ ts, ∀ name i, t.indexOf? name = some i →
    ∃ p, t.properties[i]? = some p ∧ p.name = name
  /-- The registry resolves a name to the last property that the type declares under it. -/
  resolves : ∀ type name, (ofList ts).resolve? type name =
    ((lastUnder ts type).bind fun t => (t.declared name).getLast?).map Property.lands
  /-- The list of a type gives the first. -/
  finds : ∀ t ∈ ts, ∀ name, t.find? name = (t.declared name).head?
  /-- Both know the same names. -/
  knows : ∀ type name, (ofList ts).resolve? type name = none ↔
    (lastUnder ts type).bind (·.find? name) = none
  /-- They agree exactly if the first and the last declaration land on the same thing. -/
  agrees_iff : ∀ type t, lastUnder ts type = some t → ∀ name,
    ((ofList ts).resolve? type name = (t.find? name).map Property.lands ↔
      ∀ p ∈ (t.declared name).head?, ∀ q ∈ (t.declared name).getLast?, q.lands = p.lands)
  /-- So they agree on all names of a type that declares no name twice. -/
  agrees : ∀ type t, lastUnder ts type = some t → (t.properties.map (·.name)).Nodup →
    ∀ name, (ofList ts).resolve? type name = (t.find? name).map Property.lands

theorem resolve?_ofList (ts : List MappedType) (type name : String) :
    (ofList ts).resolve? type name =
      ((lastUnder ts type).bind fun t => t.indexed? name).map Property.lands := by
  rw [resolve?, get?_ofList]
  rfl

/-- **The registry looks up the last declaration of a name.** -/
theorem looksUp (ts : List MappedType) : LooksUp ts where
  latest := get?_ofList ts
  filled t _ := t.indexOf?_eq_filled
  inRange _ _ _ _ := MappedType.getElem?_of_indexOf?
  resolves type name := by
    rw [resolve?_ofList]
    simp only [MappedType.indexed?_eq_getLast?]
  finds t _ := t.find?_eq_head?
  knows type name := by
    rw [resolve?_ofList, Option.map_eq_none_iff]
    cases lastUnder ts type with
    | none => rfl
    | some t => exact MappedType.indexed?_eq_none_iff
  agrees_iff type t ht name := by
    rw [resolve?_ofList, ht, Option.bind_some, MappedType.indexed?_eq_getLast?,
      MappedType.find?_eq_head?, map_getLast?_eq_map_head?_iff]
  agrees type t ht hnodup name := by
    rw [resolve?_ofList, ht, Option.bind_some, MappedType.indexed?_eq_find? hnodup]

/-- A type that declares a name twice: the index resolves it to a reference to a town, and the list
gives a text. -/
theorem first_last_differ :
    let t := MappedType.entity "Person" (some "id")
      [⟨"name", .scalar "String"⟩, ⟨"name", .reference "Town"⟩]
    (ofList [t]).resolve? "Person" "name" = some ⟨"Town", false⟩ ∧
    (ofList [t]).get? "Person" = some t ∧
    (t.find? "name").map Property.lands = some ⟨"String", false⟩ := by
  decide +kernel

end Registry

end PathQuery
