import Mathlib.Data.List.Perm.Basic
import Mathlib.Logic.Equiv.Basic
import PathQuery.Proofs.Marks
import PathQuery.Proofs.Source

/-!
# The order of accesses

Two runs that access the same properties in another order number their nodes and aliases in another
way, and on the way an entity may be joined in one of them and a foreign key in the other. In the
end they come to the same.

**Nodes at one address.** The addresses of two graphs are the same if the runs have the same marks
(`SameMarks`), and nodes at one address are *alike* (`Graph.Alike`): from the roots on they stand
for the same, since a segment is resolved on the type above it; they have children at the same
segments, so one is a foreign key if the other is; so they are joined in the same way.

**Aliases by name.** A node is written by an alias, which differs, and by segments, which do not. So
references are compared with a name in place of each alias (`referenceBy`), where the name depends on
the address of the node that owns it. With the aliases themselves as names it is the reference
again (`Query.SpellsOut`).

Main statement: `run_sameUpToAliases`.
-/

namespace PathQuery

/-- Whether two runs have declared the same roots in the same order, accessed the same addresses,
and set the same join type last at each of them. -/
structure SameMarks (ms ms' : List Mark) : Prop where
  roots : rootTypes ms' = rootTypes ms
  addresses : ∀ a, a ∈ accessed ms' ↔ a ∈ accessed ms
  joins : ∀ a ∈ accessed ms, lastJoin ms' a = lastJoin ms a

theorem SameMarks.symm {ms ms' : List Mark} (h : SameMarks ms ms') : SameMarks ms' ms :=
  ⟨h.roots.symm, fun a => (h.addresses a).symm, fun a ha => (h.joins a ((h.addresses a).1 ha)).symm⟩

namespace Graph

/-! ## Writing with names -/

section

variable (g : Graph) (name : Nat → String)

/-- What the first node of a lineage is written by, with a name in place of each alias. -/
def referenceAlongBy : List Nat → String
  | [] => ""
  | i :: above =>
    if g.ownsAlias i then name i
    else if above.isEmpty then g.segment i
    else referenceAlongBy above ++ "." ++ g.segment i

def referenceBy (i : Nat) : String := g.referenceAlongBy name (g.lineage i)

def joinPathBy (i : Nat) : String :=
  match g.parent? i with
  | some p => g.referenceBy name p ++ "." ++ g.segment i
  | none => g.target i

/-- The join of a node without its conditions, if the node is joined. -/
def joinBy? (i : Nat) : Option String :=
  (g.joinType i).keyword?.map fun keyword => keyword ++ " " ++ g.joinPathBy name i ++ " " ++ name i

/-- The alias of a node, if it owns one. -/
def aliasName (i : Nat) : String := (g.alias? i).getD ""

end

variable {g g' : Graph} {name : Nat → String} {i j p : Nat}

theorem referenceBy_of_ownsAlias (h : g.ownsAlias i = true) : g.referenceBy name i = name i := by
  rw [referenceBy]
  cases hp : g.parent? i with
  | none => rw [lineage_of_root hp, referenceAlongBy, if_pos h]
  | some p => rw [lineage_of_parent hp, referenceAlongBy, if_pos h]

theorem referenceBy_of_parent (h : g.ownsAlias i = false) (hp : g.parent? i = some p) :
    g.referenceBy name i = g.referenceBy name p ++ "." ++ g.segment i := by
  have hne : (g.lineage p).isEmpty = false := List.isEmpty_eq_false_iff.2 (g.lineage_ne_nil p)
  rw [referenceBy, lineage_of_parent hp, referenceAlongBy, h, hne]
  rfl

theorem alias?_of_not_ownsAlias (h : g.ownsAlias i = false) : g.alias? i = none := by
  rw [alias?, h]
  rfl

theorem ownsAlias_of_root {n : Node} (hn : g.node? i = some n) (hk : n.kind = .root) :
    g.ownsAlias i = true := by
  rw [ownsAlias, kind?, hn, Option.map_some, hk]

/-- With the aliases as names a node is written as it is. -/
theorem reference_eq_referenceBy {t : Scopes} (ho : Owned g t) (hi : i < g.size) :
    g.reference i = g.referenceBy g.aliasName i := by
  induction i using Nat.strongRecOn with
  | ind i ih =>
    cases howns : g.ownsAlias i with
    | true =>
      obtain ⟨a, ha⟩ := ho.exists_alias? howns
      rw [referenceBy_of_ownsAlias howns, reference_of_alias? ha, aliasName, ha]
      rfl
    | false =>
      cases hp : g.parent? i with
      | none =>
        obtain ⟨n, hn⟩ := exists_node?_of_lt hi
        rw [parent?, hn, Option.bind_some] at hp
        rw [ownsAlias_of_root hn ((ho.root_iff hn).2 hp)] at howns
        cases howns
      | some p =>
        rw [referenceBy_of_parent howns hp,
          reference_of_parent (alias?_of_not_ownsAlias howns) hp,
          ih p (parent?_lt hp) (Nat.lt_trans (parent?_lt hp) hi)]

theorem joinPath_eq_joinPathBy {t : Scopes} (ho : Owned g t) (hi : i < g.size) :
    g.joinPath i = g.joinPathBy g.aliasName i := by
  rw [joinPath, joinPathBy]
  cases hp : g.parent? i with
  | none => rfl
  | some p =>
    dsimp only
    rw [reference_eq_referenceBy ho (Nat.lt_trans (parent?_lt hp) hi)]

/-! ## Nodes at one address -/

/-- What a node stands for: its kind, with the type and the identifier of that. -/
def spec? (g : Graph) (i : Nat) : Option ChildSpec :=
  (g.node? i).map fun n => ⟨n.target, n.kind, n.identifier⟩

theorem target_eq_of_spec? (h : g'.spec? j = g.spec? i) : g'.target j = g.target i := by
  have htargets := congrArg (Option.map ChildSpec.target) h
  rw [spec?, spec?, Option.map_map, Option.map_map] at htargets
  exact congrArg (·.getD "") htargets

theorem kind?_eq_of_spec? (h : g'.spec? j = g.spec? i) : g'.kind? j = g.kind? i := by
  have hkinds := congrArg (Option.map ChildSpec.kind) h
  rw [spec?, spec?, Option.map_map, Option.map_map] at hkinds
  exact hkinds

/-- Whether two nodes are the same but for their numbers and aliases. -/
structure Alike (g g' : Graph) (i j : Nat) : Prop where
  address : g'.address j = g.address i
  /-- They have the same kind, target type and identifier. -/
  spec : g'.spec? j = g.spec? i
  joinType : g'.joinType j = g.joinType i
  ownsAlias : g'.ownsAlias j = g.ownsAlias i
  /-- They are written alike if a name that depends on its address stands for each owner of an
  alias. -/
  reference : ∀ ν : Address → String,
    g'.referenceBy (ν ∘ g'.address) j = g.referenceBy (ν ∘ g.address) i
  joinPath : ∀ ν : Address → String,
    g'.joinPathBy (ν ∘ g'.address) j = g.joinPathBy (ν ∘ g.address) i

/-- Whether a graph is what the marks of a run say, with one node at each address. -/
structure Tree (schema : Registry) (ms : List Mark) (g : Graph) : Prop where
  records : g.Records schema ms
  distinct : g.Distinct

/-- A number of a root is that of some root. -/
theorem exists_root_of_lt {k : Nat} (hk : k < g.rootNumber i) :
    ∃ r < i, g.parent? r = none ∧ g.rootNumber r = k := by
  induction i with
  | zero => cases hk
  | succ i ih =>
    rw [rootNumber_succ] at hk
    by_cases hlt : k < g.rootNumber i
    · obtain ⟨r, hr, hroot⟩ := ih hlt
      exact ⟨r, Nat.lt_succ_of_lt hr, hroot⟩
    · cases hp : g.parent? i with
      | some p =>
        rw [hp] at hk
        exact absurd hk hlt
      | none =>
        rw [hp, Option.isNone_none, if_pos rfl] at hk
        exact ⟨i, Nat.lt_succ_self i, hp, Nat.le_antisymm (Nat.not_lt.1 hlt) (Nat.le_of_lt_succ hk)⟩

/-- A parent is at the address that a segment is put to. -/
theorem exists_parent_of_address {a : Address} {x : String} (h : g.address i = a.child x) :
    ∃ p, g.parent? i = some p ∧ g.address p = a ∧ g.segment i = x := by
  cases hp : g.parent? i with
  | none =>
    rw [parent?_eq_none_iff, h] at hp
    exact absurd hp (Address.child_segments_ne_nil a x)
  | some p =>
    rw [address_of_parent hp, Address.child_inj] at h
    exact ⟨p, rfl, h⟩

namespace Tree

variable {schema : Registry} {ms ms' : List Mark} {n : Node} {x : String}

section

variable (h : g.Tree schema ms)

include h

theorem root_of_node? (hn : g.node? i = some n) (hp : n.parent = none) : n.kind = .root ∧
    n.identifier = none ∧ (rootTypes ms)[g.rootNumber i]? = some n.target := by
  cases h.records.node hn with
  | root parent kind type identifier => exact ⟨kind, identifier, type⟩
  | child parent => rw [hp] at parent; cases parent

theorem child_of_node? (hn : g.node? i = some n) (hp : n.parent = some p) :
    g.address i ∈ accessed ms ∧ ∃ r, schema.resolve? (g.target p) n.segment = some r ∧
      Query.childSpec schema r = ⟨n.target, n.kind, n.identifier⟩ := by
  cases h.records.node hn with
  | root parent => rw [hp] at parent; cases parent
  | child parent address resolved made =>
    rw [hp] at parent
    cases parent
    exact ⟨address, _, resolved, made⟩

/-- The children of a node are told by the segments that they stand at. -/
theorem mem_segments (hi : i < g.size) :
    x ∈ (g.children i).map g.segment ↔ ∃ c < g.size, g.address c = (g.address i).child x := by
  rw [List.mem_map]
  constructor
  · rintro ⟨c, hc, rfl⟩
    have hp := mem_children.1 hc
    exact ⟨c, lt_size_of_parent? hp, address_of_parent hp⟩
  · rintro ⟨c, hc, haddress⟩
    obtain ⟨p, hp, hpa, hsegment⟩ := exists_parent_of_address haddress
    obtain rfl := h.distinct (Nat.lt_trans (parent?_lt hp) hc) hi hpa
    exact ⟨c, mem_children.2 hp, hsegment⟩

theorem nodup_segments (i : Nat) : ((g.children i).map g.segment).Nodup := by
  refine List.Nodup.map_on (fun c hc d hd heq => ?_) (g.nodup_children i)
  have hpc := mem_children.1 hc
  have hpd := mem_children.1 hd
  refine h.distinct (lt_size_of_parent? hpc) (lt_size_of_parent? hpd) ?_
  rw [address_of_parent hpc, address_of_parent hpd, heq]

end

/-- A foreign key is told by the segments of the children. -/
theorem isForeignKey_eq_segments (g : Graph) (i : Nat) (n : Node) :
    g.isForeignKey i n = match (g.children i).map g.segment with
      | [x] => n.identifier == some x
      | _ => false := by
  rw [isForeignKey]
  cases hc : g.children i with
  | nil => rfl
  | cons c rest =>
    cases rest with
    | cons d rest => rfl
    | nil =>
      have hp : g.parent? c = some i := mem_children.1 (hc ▸ List.mem_cons_self)
      obtain ⟨m, hm, -⟩ := parent?_eq_some_iff.1 hp
      cases hid : n.identifier with
      | none => simp [hm]
      | some x => simp [hm, Graph.segment, eq_comm]

variable (h : g.Tree schema ms) (h' : g'.Tree schema ms') (hs : SameMarks ms ms')

include h h' hs

/-- The same addresses stand for nodes. -/
theorem exists_at (hi : i < g.size) : ∃ j < g'.size, g'.address j = g.address i := by
  obtain ⟨n, hn⟩ := exists_node?_of_lt hi
  cases hp : n.parent with
  | none =>
    have hroot : g.parent? i = none := by rw [parent?, hn, Option.bind_some, hp]
    have hlt := (List.getElem?_eq_some_iff.1 (h.root_of_node? hn hp).2.2).1
    rw [← hs.roots, ← h'.records.roots] at hlt
    obtain ⟨r, hr, hrp, hnumber⟩ := exists_root_of_lt hlt
    exact ⟨r, hr, by rw [address_of_root hroot, address_of_root hrp, hnumber]⟩
  | some p => exact h'.records.accessed ((hs.addresses _).2 (h.child_of_node? hn hp).1)

/-- Nodes at one address stand for the same. -/
theorem spec?_eq (hi : i < g.size) (hj : j < g'.size) (ha : g'.address j = g.address i) :
    g'.spec? j = g.spec? i := by
  induction i using Nat.strongRecOn generalizing j with
  | ind i ih =>
    obtain ⟨n, hn⟩ := exists_node?_of_lt hi
    obtain ⟨m, hm⟩ := exists_node?_of_lt hj
    rw [spec?, spec?, hn, hm, Option.map_some, Option.map_some]
    cases hp : g.parent? i with
    | none =>
      have hq : g'.parent? j = none := by
        rw [parent?_eq_none_iff, ha, ← parent?_eq_none_iff, hp]
      rw [address_of_root hp, address_of_root hq, Address.mk.injEq] at ha
      rw [parent?, hn, Option.bind_some] at hp
      rw [parent?, hm, Option.bind_some] at hq
      obtain ⟨hkind, hid, htype⟩ := h.root_of_node? hn hp
      obtain ⟨hkind', hid', htype'⟩ := h'.root_of_node? hm hq
      rw [hs.roots, ha.1, htype, Option.some.injEq] at htype'
      rw [hkind, hkind', hid, hid', htype']
    | some p =>
      rw [address_of_parent hp] at ha
      obtain ⟨q, hq, hqa, hsegment⟩ := exists_parent_of_address ha
      have hpi := parent?_lt hp
      have habove := ih p hpi (Nat.lt_trans hpi hi) (Nat.lt_trans (parent?_lt hq) hj) hqa
      have htarget := target_eq_of_spec? habove
      have hsame : m.segment = n.segment := by simpa [Graph.segment, hn, hm] using hsegment
      obtain ⟨k, hk, hkp⟩ := parent?_eq_some_iff.1 hp
      obtain rfl : n = k := Option.some.inj (hn.symm.trans hk)
      obtain ⟨l, hl, hlq⟩ := parent?_eq_some_iff.1 hq
      obtain rfl : m = l := Option.some.inj (hm.symm.trans hl)
      obtain ⟨-, r, hr, hspec⟩ := h.child_of_node? hn hkp
      obtain ⟨-, r', hr', hspec'⟩ := h'.child_of_node? hm hlq
      rw [htarget, hsame, hr, Option.some.injEq] at hr'
      rw [← hspec, ← hspec', hr']

/-- Nodes at one address have children at the same segments. -/
theorem segments_perm (hi : i < g.size) (hj : j < g'.size) (ha : g'.address j = g.address i) :
    ((g'.children j).map g'.segment).Perm ((g.children i).map g.segment) := by
  refine (List.perm_ext_iff_of_nodup (h'.nodup_segments j) (h.nodup_segments i)).2 fun x => ?_
  rw [h'.mem_segments hj, h.mem_segments hi, ha]
  constructor
  · rintro ⟨c, hc, hca⟩
    rw [← hca]
    exact exists_at h' h hs.symm hc
  · rintro ⟨c, hc, hca⟩
    rw [← hca]
    exact exists_at h h' hs hc

theorem isForeignKey_eq (hi : i < g.size) (hj : j < g'.size) (ha : g'.address j = g.address i)
    {n m : Node} (hid : m.identifier = n.identifier) :
    g'.isForeignKey j m = g.isForeignKey i n := by
  have hperm := segments_perm h h' hs hi hj ha
  rw [isForeignKey_eq_segments, isForeignKey_eq_segments, hid]
  rcases hc : (g.children i).map g.segment with _ | ⟨x, _ | ⟨y, rest⟩⟩
  · rw [hc, List.perm_nil] at hperm
    rw [hperm]
  · rw [hc, List.perm_singleton] at hperm
    rw [hperm]
  · rw [hc] at hperm
    have hlength := hperm.length_eq
    split
    · next heq => simp [heq] at hlength
    · rfl

/-- Nodes at one address are joined alike. -/
theorem joinType_eq (hi : i < g.size) (hj : j < g'.size) (ha : g'.address j = g.address i) :
    g'.joinType j = g.joinType i := by
  obtain ⟨n, hn⟩ := exists_node?_of_lt hi
  obtain ⟨m, hm⟩ := exists_node?_of_lt hj
  have hspec := spec?_eq h h' hs hi hj ha
  rw [spec?, spec?, hn, hm, Option.map_some, Option.map_some, Option.some.injEq,
    ChildSpec.mk.injEq] at hspec
  obtain ⟨-, hkind, hid⟩ := hspec
  rw [joinType, joinType, hn, hm]
  dsimp only
  rw [hkind]
  cases hp : n.parent with
  | none => rw [(h.root_of_node? hn hp).1]
  | some p =>
    have hjoin : m.join = n.join := by
      rw [h'.records.join hm, h.records.join hn, ha]
      exact hs.joins _ (h.child_of_node? hn hp).1
    rw [hjoin, isForeignKey_eq h h' hs hi hj ha hid]

theorem ownsAlias_eq (hi : i < g.size) (hj : j < g'.size) (ha : g'.address j = g.address i) :
    g'.ownsAlias j = g.ownsAlias i := by
  rw [Graph.ownsAlias, Graph.ownsAlias, kind?_eq_of_spec? (spec?_eq h h' hs hi hj ha),
    joinType_eq h h' hs hi hj ha]

/-- Nodes at one address are written alike. -/
theorem referenceBy_eq (ν : Address → String) (hi : i < g.size) (hj : j < g'.size)
    (ha : g'.address j = g.address i) :
    g'.referenceBy (ν ∘ g'.address) j = g.referenceBy (ν ∘ g.address) i := by
  induction i using Nat.strongRecOn generalizing j with
  | ind i ih =>
    have hsame := ownsAlias_eq h h' hs hi hj ha
    cases howns : g.ownsAlias i with
    | true =>
      rw [howns] at hsame
      rw [referenceBy_of_ownsAlias howns, referenceBy_of_ownsAlias hsame, Function.comp, ha]
      rfl
    | false =>
      rw [howns] at hsame
      cases hp : g.parent? i with
      | none =>
        obtain ⟨n, hn⟩ := exists_node?_of_lt hi
        rw [parent?, hn, Option.bind_some] at hp
        rw [ownsAlias_of_root hn (h.root_of_node? hn hp).1] at howns
        cases howns
      | some p =>
        rw [address_of_parent hp] at ha
        obtain ⟨q, hq, hqa, hsegment⟩ := exists_parent_of_address ha
        have hpi := parent?_lt hp
        rw [referenceBy_of_parent howns hp, referenceBy_of_parent hsame hq, hsegment,
          ih p hpi (Nat.lt_trans hpi hi) (Nat.lt_trans (parent?_lt hq) hj) hqa]

/-- **Nodes at one address are alike.** -/
theorem alike (hi : i < g.size) (hj : j < g'.size) (ha : g'.address j = g.address i) :
    g.Alike g' i j where
  address := ha
  spec := spec?_eq h h' hs hi hj ha
  joinType := joinType_eq h h' hs hi hj ha
  ownsAlias := ownsAlias_eq h h' hs hi hj ha
  reference ν := referenceBy_eq h h' hs ν hi hj ha
  joinPath ν := by
    rw [joinPathBy, joinPathBy]
    cases hp : g.parent? i with
    | none =>
      have hq : g'.parent? j = none := by
        rw [parent?_eq_none_iff, ha, ← parent?_eq_none_iff, hp]
      rw [hq]
      exact target_eq_of_spec? (spec?_eq h h' hs hi hj ha)
    | some p =>
      rw [address_of_parent hp] at ha
      obtain ⟨q, hq, hqa, hsegment⟩ := exists_parent_of_address ha
      rw [hq, hsegment]
      dsimp only
      rw [referenceBy_eq h h' hs ν (Nat.lt_trans (parent?_lt hp) hi)
        (Nat.lt_trans (parent?_lt hq) hj) hqa]

end Tree

/-- The joins of nodes that are alike are written alike. -/
theorem Alike.joinBy?_eq (h : g.Alike g' i j) (ν : Address → String) :
    g'.joinBy? (ν ∘ g'.address) j = g.joinBy? (ν ∘ g.address) i := by
  rw [joinBy?, joinBy?, h.joinType, h.joinPath ν, Function.comp, Function.comp, h.address]

/-- The nodes of two trees stand at the same addresses, and one function takes all of them to the
nodes at their addresses. -/
theorem Tree.exists_matching {schema : Registry} {ms ms' : List Mark} (h : g.Tree schema ms)
    (h' : g'.Tree schema ms') (hs : SameMarks ms ms') :
    ∃ f : Nat → Nat, (∀ i < g.size, f i < g'.size ∧ g.Alike g' i (f i)) ∧
      (∀ i < g.size, ∀ j < g.size, f i = f j → i = j) ∧ ∀ j < g'.size, ∃ i < g.size, f i = j := by
  choose! f hlt haddress using fun i (hi : i < g.size) => exists_at h h' hs hi
  refine ⟨f, fun i hi => ⟨hlt i hi, alike h h' hs hi (hlt i hi) (haddress i hi)⟩, ?_, ?_⟩
  · intro i hi j hj heq
    refine h.distinct hi hj ?_
    rw [← haddress i hi, ← haddress j hj, heq]
  · intro j hj
    obtain ⟨i, hi, ha⟩ := exists_at h' h hs.symm hj
    exact ⟨i, hi, h'.distinct (hlt i hi) hj ((haddress i hi).trans ha)⟩

end Graph

/-! ## Queries -/

namespace Query

/-- Whether a query is written with the aliases in place of names. -/
structure SpellsOut (q : Query) : Prop where
  reference : ∀ i < q.graph.size, q.graph.reference i = q.graph.referenceBy q.graph.aliasName i
  joinPath : ∀ i < q.graph.size, q.graph.joinPath i = q.graph.joinPathBy q.graph.aliasName i
  /-- The entry of a join in a `from` list is the join with its conditions. -/
  join : ∀ {sub s c i f}, q.Entry sub s c i f → q.graph.kind? i ≠ some .root →
    ∃ text, q.graph.joinBy? q.graph.aliasName i = some text ∧
      f = .text (" " ++ text) :: q.conditionsFragment sub " with " (c.conditionsFor i)

theorem spellsOut {q : Query} {t : Scopes} (ho : Owned q.graph t) : q.SpellsOut where
  reference _ hi := Graph.reference_eq_referenceBy ho hi
  joinPath _ hi := Graph.joinPath_eq_joinPathBy ho hi
  join {sub s c i f} he hk := by
    cases he with
    | root kind => exact absurd kind hk
    | @join keyword name _ typed owned =>
      obtain ⟨n, hn, -⟩ := Graph.isEntity_of_ownsAlias (Graph.ownsAlias_of_alias? owned)
      have hpath := Graph.joinPath_eq_joinPathBy ho (Graph.lt_size_of_node? hn)
      refine ⟨keyword ++ " " ++ q.graph.joinPath i ++ " " ++ name, ?_, ?_⟩
      · rw [Graph.joinBy?, typed, ← hpath, Graph.aliasName, owned]
        rfl
      · simp [String.append_assoc]

/-- Whether two queries are the same up to the numbers of their nodes and the names of their
aliases. -/
structure SameUpToAliases (q q' : Query) : Prop where
  /-- The nodes can be paired off so that those of a pair are alike. -/
  nodes : ∃ f : Fin q.graph.size ≃ Fin q'.graph.size,
    ∀ i : Fin q.graph.size, q.graph.Alike q'.graph i (f i)
  /-- The `from` lists have the same joins, up to their order. -/
  joins : ∀ ν : Address → String,
    ((q'.declared 0).filterMap (q'.graph.joinBy? (ν ∘ q'.graph.address))).Perm
      ((q.declared 0).filterMap (q.graph.joinBy? (ν ∘ q.graph.address)))
  spelled : q.SpellsOut ∧ q'.SpellsOut

end Query

/-! ## Runs -/

namespace Stage

variable {s s' : Stage} {i : Nat}

/-- Without sub-queries the outermost scope declares all nodes that own an alias. -/
theorem Flat.mem_declared (hf : s.Flat) (h : s.Reachable) :
    i ∈ s.query.declared 0 ↔ s.query.graph.ownsAlias i = true := by
  rw [Draft.declared, List.mem_filter, (h.sound.query.owned.declarationOrder_lists 0).mem_iff,
    and_iff_right_iff_imp]
  intro howns
  obtain ⟨n, hn, he⟩ := Graph.isEntity_of_ownsAlias howns
  have hscope := hf.scope?_eq h (Graph.lt_size_of_node? hn)
  rw [Graph.scope?, hn, Option.map_some, Option.some.injEq] at hscope
  exact ⟨n, hn, he, hscope⟩

theorem nodup_declared (h : s.Reachable) (scope : Nat) : (s.query.declared scope).Nodup :=
  (h.sound.query.owned.declarationOrder_lists scope).nodup.filter _

/-- Queries of the same marks are the same up to aliases. -/
theorem Flat.sameUpToAliases {schema : Registry} {ms ms' : List Mark} (hf : s.Flat)
    (hf' : s'.Flat) (h : s.Reachable) (h' : s'.Reachable) (ht : s.query.graph.Tree schema ms)
    (ht' : s'.query.graph.Tree schema ms') (hs : SameMarks ms ms') :
    s.query.SameUpToAliases s'.query := by
  obtain ⟨f, hf₁, hinj, hsurj⟩ := ht.exists_matching ht' hs
  have hlt : ∀ {s : Stage} {i}, s.query.graph.ownsAlias i = true → i < s.query.graph.size := by
    intro s i howns
    obtain ⟨n, hn, -⟩ := Graph.isEntity_of_ownsAlias howns
    exact Graph.lt_size_of_node? hn
  have hdeclared : ∀ i ∈ s.query.declared 0, i < s.query.graph.size := fun i hi =>
    hlt ((hf.mem_declared h).1 hi)
  refine ⟨?_, fun ν => ?_, Query.spellsOut h.sound.query.owned,
    Query.spellsOut h'.sound.query.owned⟩
  · let e : Fin s.query.graph.size → Fin s'.query.graph.size := fun i => ⟨f i, (hf₁ i i.2).1⟩
    have he : Function.Bijective e := by
      constructor
      · intro i j heq
        exact Fin.ext (hinj i i.2 j j.2 (congrArg Fin.val heq))
      · intro j
        obtain ⟨i, hi, heq⟩ := hsurj j j.2
        exact ⟨⟨i, hi⟩, Fin.ext heq⟩
    exact ⟨Equiv.ofBijective e he, fun i => (hf₁ i i.2).2⟩
  · -- The declared nodes of one query are those of the other, paired off.
    have hperm : (s'.query.declared 0).Perm ((s.query.declared 0).map f) := by
      have hnodup : ((s.query.declared 0).map f).Nodup :=
        List.Nodup.map_on (fun i hi j hj => hinj i (hdeclared i hi) j (hdeclared j hj))
          (nodup_declared h 0)
      refine (List.perm_ext_iff_of_nodup (nodup_declared h' 0) hnodup).2 fun j => ?_
      rw [hf'.mem_declared h', List.mem_map]
      constructor
      · intro howns
        obtain ⟨i, hi, rfl⟩ := hsurj j (hlt howns)
        exact ⟨i, (hf.mem_declared h).2 ((hf₁ i hi).2.ownsAlias ▸ howns), rfl⟩
      · rintro ⟨i, hi, rfl⟩
        rw [(hf₁ i (hdeclared i hi)).2.ownsAlias]
        exact (hf.mem_declared h).1 hi
    refine (hperm.filterMap _).trans (List.Perm.of_eq ?_)
    rw [List.filterMap_map]
    exact List.filterMap_congr fun i hi => (hf₁ i (hdeclared i hi)).2.joinBy?_eq ν

/-- **The order of accesses does not count.** Runs without sub-queries that declare the same roots
in the same order, access the same addresses and set the same join types last come to queries that
are the same up to aliases. -/
theorem run_sameUpToAliases {schema : Registry} {c c' : Settings} {es es' : List Event}
    (hes : ∀ e ∈ es, e ≠ .enterSub) (hes' : ∀ e ∈ es', e ≠ .enterSub)
    (hs : SameMarks ((start schema c).marks es) ((start schema c').marks es')) :
    ((start schema c).run es).query.SameUpToAliases ((start schema c').run es').query := by
  have htree : ∀ (c : Settings) (es : List Event), (∀ e ∈ es, e ≠ .enterSub) →
      ((start schema c).run es).Flat ∧
        ((start schema c).run es).query.graph.Tree schema ((start schema c).marks es) := by
    intro c es hes
    obtain ⟨hflat, hrecords⟩ := (flat_start schema c).records_run (reachable_start schema c []) rfl
      (Graph.records_empty schema) hes
    exact ⟨hflat, hrecords, hflat.distinct (reachable_start schema c es)⟩
  obtain ⟨hflat, ht⟩ := htree c es hes
  obtain ⟨hflat', ht'⟩ := htree c' es' hes'
  exact hflat.sameUpToAliases hflat' (reachable_start schema c es) (reachable_start schema c' es')
    ht ht' hs

/-- A town is a foreign key at first, and the cars come last. -/
def sampleTownFirst : List Event :=
  [.call (.addFrom "Person"), .call (.access ⟨0, .root⟩ "town"), .call (.access ⟨1, .entity⟩ "id"),
    .call .drain, .call (.access ⟨1, .entity⟩ "name"), .call .drain,
    .call (.access ⟨0, .root⟩ "cars"), .call (.join ⟨4, .collection⟩ .left)]

/-- The cars come first, in a join of another type, and the town is joined at once. -/
def sampleCarsFirst : List Event :=
  [.call (.addFrom "Person"), .call (.access ⟨0, .root⟩ "cars"),
    .call (.join ⟨1, .collection⟩ .inner), .call (.access ⟨0, .root⟩ "town"),
    .call (.access ⟨2, .entity⟩ "name"), .call .drain, .call (.access ⟨2, .entity⟩ "id"),
    .call .drain, .call (.access ⟨0, .root⟩ "cars"), .call (.join ⟨1, .collection⟩ .left)]

/-- The name of the town has another alias in each of the two runs. -/
theorem sampleTownFirst_sameUpToAliases :
    ((start Sample.registry .default).run sampleTownFirst).query.SameUpToAliases
        ((start Sample.registry .default).run sampleCarsFirst).query ∧
      ((start Sample.registry .default).run sampleTownFirst).query.graph.reference 3 =
        "hobj2.name" ∧
      ((start Sample.registry .default).run sampleCarsFirst).query.graph.reference 3 =
        "hobj3.name" := by
  have hforth : ∀ a ∈ accessed ((start Sample.registry .default).marks sampleTownFirst),
      a ∈ accessed ((start Sample.registry .default).marks sampleCarsFirst) := by decide +kernel
  have hback : ∀ a ∈ accessed ((start Sample.registry .default).marks sampleCarsFirst),
      a ∈ accessed ((start Sample.registry .default).marks sampleTownFirst) := by decide +kernel
  refine ⟨run_sameUpToAliases ?_ ?_ ⟨by decide +kernel, fun a => ⟨hback a, hforth a⟩, ?_⟩,
    by decide +kernel, by decide +kernel⟩
  · simp [sampleTownFirst]
  · simp [sampleCarsFirst]
  · decide +kernel

end Stage

end PathQuery
