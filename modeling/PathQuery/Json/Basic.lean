import PathQuery.Number.Double

/-!
# JSON values

A number is an exact integer or a double. The members of an object are kept in increasing order
of their names, each name once, so `Json.insert` is the only way members are added. `Json.Members`
are members that carry this order with them.

**Equality** (`Json.same`) is that of values: the two zeros are equal as doubles, an integer is
never equal to a double, and an object is compared member by member.

Main statements: `lookup_insert`, that inserting changes the member it names and no other,
`keys_insert`, and `ofMembers_of_ordered`, that members in their order are collected as they are.
-/

namespace PathQuery

inductive Json
  | null
  | bool (b : Bool)
  | int (i : Int)
  | double (d : Double)
  | string (s : String)
  | array (items : List Json)
  | object (members : List (String × Json))
deriving Inhabited

namespace Json

/-! ## Members of an object -/

/-- The member of a name. -/
def lookup (name : String) : List (String × Json) → Option Json
  | [] => none
  | (k, v) :: rest => if k = name then some v else lookup name rest

/-- The members with one of them set, in the order of their names. -/
def insert (name : String) (value : Json) : List (String × Json) → List (String × Json)
  | [] => [(name, value)]
  | (k, v) :: rest =>
    if name < k then (name, value) :: (k, v) :: rest
    else if k = name then (name, value) :: rest
    else (k, v) :: insert name value rest

/-- The members of a list in the order of their names; of a repeated name the last one counts. -/
def ofMembers (members : List (String × Json)) : List (String × Json) :=
  members.foldl (fun acc m => insert m.1 m.2 acc) []

/-- Whether the names increase strictly. -/
def Ordered (members : List (String × Json)) : Prop := (members.map (·.1)).Pairwise (· < ·)

theorem lookup_eq_none_of_lt {name : String} {members : List (String × Json)}
    (h : ∀ m ∈ members, name < m.1) : lookup name members = none := by
  induction members with
  | nil => rfl
  | cons m rest ih =>
    obtain ⟨k, v⟩ := m
    have hk : name < k := h (k, v) List.mem_cons_self
    have hne : k ≠ name := fun e => String.lt_irrefl name (e ▸ hk)
    rw [lookup, if_neg hne]
    exact ih fun m hm => h m (List.mem_cons_of_mem _ hm)

theorem keys_insert (name : String) (value : Json) (members : List (String × Json)) (k : String) :
    k ∈ (insert name value members).map (·.1) ↔ k = name ∨ k ∈ members.map (·.1) := by
  induction members with
  | nil => simp [insert]
  | cons m rest ih =>
    obtain ⟨k', v⟩ := m
    simp only [insert]
    split
    · simp
    · split
      · next h => subst h; simp
      · simp only [List.map_cons, List.mem_cons, ih]
        constructor <;> rintro (h | h | h) <;> simp [h]

theorem Ordered.insert {members : List (String × Json)} (h : Ordered members) (name : String)
    (value : Json) : Ordered (Json.insert name value members) := by
  induction members with
  | nil => simp [Json.insert, Ordered]
  | cons m rest ih =>
    obtain ⟨k, v⟩ := m
    simp only [Ordered, List.map_cons, List.pairwise_cons] at h
    simp only [Json.insert]
    split
    · next hlt =>
      simp only [Ordered, List.map_cons, List.pairwise_cons, List.mem_cons]
      refine ⟨?_, h.1, h.2⟩
      rintro k' (rfl | hk')
      · exact hlt
      · exact String.lt_trans hlt (h.1 _ hk')
    · next hnlt =>
      split
      · next he => subst he; simpa only [Ordered, List.map_cons, List.pairwise_cons] using h
      · next hne =>
        simp only [Ordered, List.map_cons, List.pairwise_cons]
        refine ⟨fun k' hk' => ?_, ih h.2⟩
        rcases (keys_insert name value rest k').1 hk' with rfl | hk'
        · exact Decidable.byContradiction fun hn =>
            hne (String.le_antisymm (String.not_lt.1 hnlt) (String.not_lt.1 hn))
        · exact h.1 _ hk'

theorem lookup_insert {members : List (String × Json)} (name : String) (value : Json)
    (k : String) : lookup k (insert name value members) =
      if k = name then some value else lookup k members := by
  induction members with
  | nil => simp [insert, lookup, eq_comm]
  | cons m rest ih =>
    obtain ⟨k', v⟩ := m
    simp only [insert]
    split
    · simp [lookup, eq_comm]
    · split
      · next h => subst h; by_cases hk : k = k' <;> simp [lookup, hk, eq_comm]
      · next hne =>
        rw [lookup, ih]
        by_cases hk : k' = k
        · subst hk; simp [lookup, hne]
        · simp [lookup, hk]

/-! ## Members in their order -/

theorem ordered_ofMembers (members : List (String × Json)) : Ordered (ofMembers members) := by
  suffices h : ∀ acc, Ordered acc →
      Ordered (members.foldl (fun acc m => insert m.1 m.2 acc) acc) from h [] List.Pairwise.nil
  induction members with
  | nil => exact fun _ h => h
  | cons m rest ih => exact fun acc h => ih _ (h.insert m.1 m.2)

/-- A name behind all others is set at the end. -/
theorem insert_of_gt {name : String} {members : List (String × Json)}
    (h : ∀ m ∈ members, m.1 < name) (value : Json) :
    insert name value members = members ++ [(name, value)] := by
  induction members with
  | nil => rfl
  | cons m rest ih =>
    obtain ⟨k, v⟩ := m
    have hk : k < name := h (k, v) List.mem_cons_self
    have hnot : ¬ name < k := fun hlt => String.lt_irrefl k (String.lt_trans hk hlt)
    have hne : k ≠ name := fun e => String.lt_irrefl name (e ▸ hk)
    rw [insert, if_neg hnot, if_neg hne, ih fun m hm => h m (List.mem_cons_of_mem _ hm)]
    rfl

theorem ofMembers_of_ordered {members : List (String × Json)} (h : Ordered members) :
    ofMembers members = members := by
  suffices hfold : ∀ acc, Ordered (acc ++ members) →
      members.foldl (fun acc m => insert m.1 m.2 acc) acc = acc ++ members from hfold [] h
  clear h
  induction members with
  | nil => simp
  | cons m rest ih =>
    intro acc hacc
    have hbefore : ∀ k ∈ acc, k.1 < m.1 := by
      simp only [Ordered, List.map_append, List.map_cons, List.pairwise_append] at hacc
      intro k hk
      exact hacc.2.2 k.1 (List.mem_map_of_mem hk) m.1 List.mem_cons_self
    rw [List.foldl_cons, insert_of_gt hbefore, ih, List.append_assoc]
    · rfl
    · rwa [List.append_assoc]

/-- Members of an object, each name once and in the order of the names. -/
structure Members where
  list : List (String × Json)
  ordered : Ordered list

namespace Members

def empty : Members := ⟨[], List.Pairwise.nil⟩

/-- The members of a list; of a repeated name the last one counts. -/
def collect (members : List (String × Json)) : Members :=
  ⟨ofMembers members, ordered_ofMembers members⟩

theorem collect_list (ms : Members) : collect ms.list = ms := by
  obtain ⟨list, ordered⟩ := ms
  simp [collect, ofMembers_of_ordered ordered]

end Members

/-! ## Equality -/

mutual

/-- Equality of values. -/
def same : Json → Json → Bool
  | .null, .null => true
  | .bool a, .bool b => a == b
  | .int a, .int b => a == b
  | .double a, .double b => a.same b
  | .string a, .string b => a == b
  | .array xs, .array ys => sameItems xs ys
  | .object xs, .object ys => sameMembers xs ys
  | _, _ => false

def sameItems : List Json → List Json → Bool
  | [], [] => true
  | x :: xs, y :: ys => same x y && sameItems xs ys
  | _, _ => false

def sameMembers : List (String × Json) → List (String × Json) → Bool
  | [], [] => true
  | (k, x) :: xs, (l, y) :: ys => k == l && same x y && sameMembers xs ys
  | _, _ => false

end

end Json

end PathQuery
