import Mathlib.Data.List.Nodup
import Mathlib.Data.String.Basic
import Mathlib.Order.Basic
import PathQuery.Json.Reader

/-!
# Values in their order

In every object of a *canonical* value, at any depth, the names increase strictly. So an object is
determined by what it has under each name (`Ordered.ext`), and the order in which its members were
set leaves no trace. A `Tree` is a value together with this.

A JSON text may name its members in any order and more than once. They are collected one after the
other, so what is read is canonical.

Main statements: `Ordered.ext` and `canonical_of_read`.
-/

namespace PathQuery.Json

variable {v : Json} {ms bs os : List (String × Json)} {k name : String}

/-! ## Members by their names -/

instance (ms : List (String × Json)) : Decidable (Ordered ms) :=
  inferInstanceAs (Decidable (List.Pairwise _ _))

theorem lookup_cons (k name : String) (v : Json) (ms : List (String × Json)) :
    lookup k ((name, v) :: ms) = if name = k then some v else lookup k ms := rfl

theorem Ordered.tail (h : Ordered ((name, v) :: ms)) : Ordered ms := (List.pairwise_cons.1 h).2

theorem Ordered.lookup_tail (h : Ordered ((name, v) :: ms)) (hk : k ≤ name) :
    lookup k ms = none := by
  apply lookup_eq_none_of_lt
  intro m hm
  have hlt : name < m.1 := (List.pairwise_cons.1 h).1 m.1 (List.mem_map_of_mem hm)
  exact lt_of_le_of_lt hk hlt

theorem mem_of_lookup (h : lookup k ms = some v) : (k, v) ∈ ms := by
  induction ms with
  | nil => cases h
  | cons m ms ih =>
    obtain ⟨name, w⟩ := m
    rw [lookup_cons] at h
    split at h
    · next hk =>
      subst hk
      cases h
      exact List.mem_cons_self
    · exact List.mem_cons_of_mem _ (ih h)

theorem Ordered.lookup_eq_some_iff (h : Ordered ms) : lookup k ms = some v ↔ (k, v) ∈ ms := by
  refine ⟨mem_of_lookup, ?_⟩
  intro hm
  induction ms with
  | nil => cases hm
  | cons m ms ih =>
    obtain ⟨name, w⟩ := m
    rcases List.mem_cons.1 hm with heq | htail
    · cases heq
      simp [lookup_cons]
    · have hlt : name < k := (List.pairwise_cons.1 h).1 k (List.mem_map_of_mem htail)
      rw [lookup_cons, if_neg hlt.ne]
      exact ih h.tail htail

theorem Ordered.nodup (h : Ordered ms) : ms.Nodup :=
  List.Nodup.of_map _ (h.imp fun hlt => hlt.ne)

/-- **Ordered members are determined by what they have under each name.** -/
theorem Ordered.ext (hb : Ordered bs) (ho : Ordered os) (h : ∀ k, lookup k bs = lookup k os) :
    bs = os := by
  have hperm : bs.Perm os := by
    apply (List.perm_ext_iff_of_nodup hb.nodup ho.nodup).2
    intro m
    rw [← hb.lookup_eq_some_iff, h, ho.lookup_eq_some_iff]
  apply hperm.eq_of_pairwise ?_ (List.pairwise_map.1 hb) (List.pairwise_map.1 ho)
  intro a b _ _ hab hba
  exact absurd hab hba.asymm

theorem sizeOf_lt_of_lookup (h : lookup k ms = some v) : sizeOf v < sizeOf ms := by
  have hmem : sizeOf (k, v) < sizeOf ms := List.sizeOf_lt_of_mem (mem_of_lookup h)
  have hpair : sizeOf (k, v) = 1 + sizeOf k + sizeOf v := rfl
  omega

/-! ## Canonical values -/

mutual

/-- Whether the names in every object increase strictly, at any depth. -/
def Canonical : Json → Prop
  | .array items => CanonicalItems items
  | .object members => Ordered members ∧ CanonicalMembers members
  | _ => True

def CanonicalItems : List Json → Prop
  | [] => True
  | v :: rest => Canonical v ∧ CanonicalItems rest

def CanonicalMembers : List (String × Json) → Prop
  | [] => True
  | (_, v) :: rest => Canonical v ∧ CanonicalMembers rest

end

theorem canonicalMembers_iff : CanonicalMembers ms ↔ ∀ m ∈ ms, m.2.Canonical := by
  induction ms with
  | nil => simp [CanonicalMembers]
  | cons m ms ih => simp [CanonicalMembers, ih]

theorem CanonicalMembers.lookup (h : CanonicalMembers ms) (hk : lookup k ms = some v) :
    v.Canonical :=
  canonicalMembers_iff.1 h (k, v) (mem_of_lookup hk)

/-- The members of an object are canonical if each of them is, found by its name. -/
theorem canonical_object (h : Ordered ms) (hall : ∀ k v, lookup k ms = some v → v.Canonical) :
    (object ms).Canonical := by
  refine ⟨h, canonicalMembers_iff.2 ?_⟩
  intro m hm
  exact hall m.1 m.2 (h.lookup_eq_some_iff.2 hm)

theorem CanonicalMembers.insert (h : CanonicalMembers ms) (hv : v.Canonical) (name : String) :
    CanonicalMembers (insert name v ms) := by
  induction ms with
  | nil => exact ⟨hv, h⟩
  | cons m ms ih =>
    obtain ⟨l, w⟩ := m
    rw [Json.insert]
    split
    · exact ⟨hv, h⟩
    · split
      · exact ⟨hv, h.2⟩
      · exact ⟨h.1, ih h.2⟩

/-- A canonical value. -/
structure Tree where
  value : Json
  canonical : value.Canonical

/-! ## JSON texts -/

theorem CanonicalMembers.ofMembers (h : CanonicalMembers ms) : CanonicalMembers (ofMembers ms) := by
  suffices hfold : ∀ acc, CanonicalMembers acc →
      CanonicalMembers (ms.foldl (fun acc m => Json.insert m.1 m.2 acc) acc) from
    hfold [] trivial
  induction ms with
  | nil => exact fun _ h => h
  | cons m ms ih => exact fun acc hacc => ih h.2 _ (hacc.insert h.1 m.1)

theorem canonical_number {n : Lexeme} (h : n.toJson? = some v) : v.Canonical := by
  simp only [Lexeme.toJson?] at h
  split_ifs at h
  · cases h; trivial
  · cases h; trivial
  · cases h; trivial
  · cases h; trivial
  · obtain ⟨d, -, rfl⟩ := Option.map_eq_some_iff.1 h
    trivial

namespace Form

mutual

theorem canonical_toJson {depth : Nat} : ∀ {form : Form} {j : Json},
    form.toJson? depth = some j → j.Canonical
  | .null, j, h => by cases h; trivial
  | .bool b, j, h => by cases h; trivial
  | .number _, _, h => canonical_number h
  | .string units, j, h => by
    simp only [toJson?, Option.map_eq_some_iff] at h
    obtain ⟨s, -, rfl⟩ := h
    trivial
  | .array items, j, h => by
    simp only [toJson?] at h
    split at h
    · cases h
    · obtain ⟨vs, hvs, rfl⟩ := Option.map_eq_some_iff.1 h
      exact canonicalItems_toJson hvs
  | .object members, j, h => by
    simp only [toJson?] at h
    split at h
    · cases h
    · obtain ⟨ms, hms, rfl⟩ := Option.map_eq_some_iff.1 h
      exact ⟨ordered_ofMembers ms, (canonicalMembers_toJson hms).ofMembers⟩

theorem canonicalItems_toJson {depth : Nat} : ∀ {items : List Form} {vs : List Json},
    itemsToJson? depth items = some vs → CanonicalItems vs
  | [], vs, h => by cases h; trivial
  | item :: rest, vs, h => by
    simp only [itemsToJson?, Option.bind_eq_bind, Option.bind_eq_some_iff] at h
    obtain ⟨v, hv, values, hvalues, h⟩ := h
    cases h
    exact ⟨canonical_toJson hv, canonicalItems_toJson hvalues⟩

theorem canonicalMembers_toJson {depth : Nat} : ∀ {members : List (List StringUnit × Form)}
    {ms : List (String × Json)}, membersToJson? depth members = some ms → CanonicalMembers ms
  | [], ms, h => by cases h; trivial
  | (name, form) :: rest, ms, h => by
    simp only [membersToJson?, Option.bind_eq_bind, Option.bind_eq_some_iff] at h
    obtain ⟨key, -, v, hv, values, hvalues, h⟩ := h
    cases h
    exact ⟨canonical_toJson hv, canonicalMembers_toJson hvalues⟩

end

end Form

/-- The value of a text is canonical. -/
theorem canonical_of_read {s : String} (h : read? s = some v) : v.Canonical := by
  obtain ⟨form, -, hform⟩ := Option.bind_eq_some_iff.1 h
  exact Form.canonical_toJson hform

end PathQuery.Json
