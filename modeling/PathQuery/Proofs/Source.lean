import Mathlib.Data.List.Forall2
import PathQuery.Proofs.Declaration
import PathQuery.Proofs.Faults
import PathQuery.Proofs.Reachable
import PathQuery.Proofs.Reference
import PathQuery.Schema.Sample

/-!
# The `from` list

The `from` list of a scope is written by two walks, one under its roots and one under the nodes
attached to it, and the nodes that the scope does not join are passed over. What is left is one
*entry* for each node that the scope *declares*: those of its declaration order that own an alias.

Main statements: `source_eq`, what the list is made of, and `Reachable.declaresExactly`, that along
every run a scope declares its own nodes, each once and under an alias that no other node has.
-/

namespace PathQuery

/-! ## Entries -/

namespace Draft

variable {d : Draft} {sub : Nat → Fragment} {s i : Nat} {c : Clauses} {xs ys : List Nat}
  {f f' : Fragment}

/-- The nodes that a scope declares: those of its declaration order that own an alias. -/
def declared (d : Draft) (s : Nat) : List Nat :=
  (d.scopes.declarationOrder d.graph s).filter d.graph.ownsAlias

/-- What stands in the `from` list of a scope for a node that it declares: a root by the name of
its entity and its alias, with a comma in front unless it is the first one, and a join by its
keyword, path and alias, with its conditions. -/
inductive Entry (d : Draft) (sub : Nat → Fragment) (s : Nat) (c : Clauses) :
    Nat → Fragment → Prop
  | root {i type name} (kind : d.graph.kind? i = some .root)
    (named : d.schema.entityName? (d.graph.target i) = some type)
    (owned : d.graph.alias? i = some name) :
    Entry d sub s c i
      ((if (d.scopes.roots s).head? = some i then [] else [.text ", "]) ++
        [.text (type ++ " " ++ name)])
  | join {i keyword name} (kind : d.graph.kind? i ≠ some .root)
    (typed : (d.graph.joinType i).keyword? = some keyword)
    (owned : d.graph.alias? i = some name) :
    Entry d sub s c i
      (.text (" " ++ keyword ++ " " ++ d.graph.joinPath i ++ " " ++ name) ::
        d.conditionsFragment sub " with " (c.conditionsFor i))

/-- Whether a fragment is made of the entries of some nodes, in their order. -/
def Enters (d : Draft) (sub : Nat → Fragment) (s : Nat) (c : Clauses) (xs : List Nat)
    (f : Fragment) : Prop :=
  ∃ entries, List.Forall₂ (d.Entry sub s c) xs entries ∧ f = entries.flatten

namespace Enters

theorem nil : d.Enters sub s c [] [] := ⟨[], .nil, rfl⟩

theorem single (h : d.Entry sub s c i f) : d.Enters sub s c [i] f :=
  ⟨[f], .cons h .nil, by simp⟩

theorem append (h : d.Enters sub s c xs f) (h' : d.Enters sub s c ys f') :
    d.Enters sub s c (xs ++ ys) (f ++ f') := by
  obtain ⟨es, hes, rfl⟩ := h
  obtain ⟨es', hes', rfl⟩ := h'
  exact ⟨es ++ es', List.rel_append hes hes', by simp⟩

theorem flatMap {α : Type} {l : List α} {g : α → List Nat} {w : α → Fragment}
    (h : ∀ a ∈ l, d.Enters sub s c (g a) (w a)) :
    d.Enters sub s c (l.flatMap g) (l.flatMap w) := by
  induction l with
  | nil => exact nil
  | cons a rest ih =>
    rw [List.forall_mem_cons] at h
    exact h.1.append (ih h.2)

end Enters

/-- Whether a scope declares a node. -/
def isDeclared (d : Draft) (s i : Nat) : Bool := d.graph.isListed s i && d.graph.ownsAlias i

theorem isJoined_eq (h : d.graph.kind? i ≠ some .root) : d.isJoined s i = d.isDeclared s i := by
  rw [isJoined, isDeclared]
  cases ho : d.graph.ownsAlias i with
  | false => simp
  | true =>
    obtain ⟨n, hn, he⟩ := Graph.isEntity_of_ownsAlias ho
    have hk : n.kind ≠ .root := fun hk => h (by rw [Graph.kind?, hn, Option.map_some, hk])
    simp [Graph.isListed, hn, he, hk]

/-- What is written for a node that is no root. -/
theorem enters_join {t : Scopes} (ho : Owned d.graph t) (hk : d.graph.kind? i ≠ some .root)
    (hf : (d.joinFragment sub s c i).Faultless) :
    d.Enters sub s c ([i].filter (d.isDeclared s)) (d.joinFragment sub s c i) := by
  unfold joinFragment at hf ⊢
  rw [isJoined_eq hk] at hf ⊢
  cases hd : d.isDeclared s i with
  | false => simpa [hd] using Enters.nil
  | true =>
    have howns : d.graph.ownsAlias i = true := (Bool.and_eq_true _ _ ▸ hd).2
    obtain ⟨keyword, hkey⟩ := Graph.exists_keyword howns hk
    obtain ⟨name, hname⟩ := ho.exists_alias? howns
    simp only [hd, Bool.not_true, Bool.false_eq_true, if_false] at hf ⊢
    split at hf
    · exact absurd List.mem_cons_self (hf _)
    · next hneeds =>
      rw [if_neg hneeds, hkey, Graph.reference_of_alias? hname]
      simpa [hd] using Enters.single (.join hk hkey hname)

/-- Below a node that has a parent there are no roots. -/
theorem kind?_ne_root_of_mem_preorder {t : Scopes} (ho : Owned d.graph t) {a p : Nat}
    (hp : d.graph.parent? a = some p) (hi : i ∈ d.graph.preorder a) :
    d.graph.kind? i ≠ some .root := by
  rcases (d.graph.ancestry.mem_chain_iff).1 (Graph.mem_preorder.1 hi) with rfl | ⟨q, hq, -⟩
  · exact Graph.kind?_ne_root ho hp
  · exact Graph.kind?_ne_root ho hq

/-! ## The whole list -/

theorem enters_joins {t : Scopes} (ho : Owned d.graph t)
    (hk : ∀ i ∈ xs, d.graph.kind? i ≠ some .root)
    (hf : Fragment.Faultless (xs.flatMap (d.joinFragment sub s c))) :
    d.Enters sub s c (xs.filter (d.isDeclared s)) (xs.flatMap (d.joinFragment sub s c)) := by
  have heach : ∀ i ∈ xs, d.Enters sub s c ([i].filter (d.isDeclared s))
      (d.joinFragment sub s c i) := by
    intro i hi
    exact enters_join ho (hk i hi) fun e he => hf e (List.mem_flatMap.2 ⟨i, hi, he⟩)
  have hflat : xs.filter (d.isDeclared s) = xs.flatMap fun i => [i].filter (d.isDeclared s) := by
    rw [← List.filter_flatMap, List.flatMap_singleton']
  rw [hflat]
  exact .flatMap heach

/-- A root with the nodes under it. -/
theorem enters_root {t : Scopes} (ho : Owned d.graph t) {n : Node} (hn : d.graph.node? i = some n)
    (hk : n.kind = .root) (hs : n.scope = s)
    (hf : (d.rootFragment sub s c i).Faultless) :
    d.Enters sub s c ((d.graph.preorder i).filter (d.isDeclared s))
      ((if (d.scopes.roots s).head? = some i then [] else [.text ", "]) ++
        d.rootFragment sub s c i) := by
  have hkind : d.graph.kind? i = some .root := by rw [Graph.kind?, hn, Option.map_some, hk]
  have howns : d.graph.ownsAlias i = true := by rw [Graph.ownsAlias, hkind]
  have hdecl : d.isDeclared s i = true := by
    simp [isDeclared, Graph.isListed, hn, hk, hs, howns, NodeKind.isEntity]
  obtain ⟨name, hname⟩ := ho.exists_alias? howns
  have hdepth : d.graph.depthFirst i = d.graph.preorder i :=
    Graph.depthFirst_eq (Graph.lt_size_of_node? hn)
  unfold rootFragment at hf ⊢
  dsimp only at hf ⊢
  cases htype : d.schema.entityName? (d.graph.target i) with
  | none =>
    rw [htype] at hf
    exact absurd List.mem_cons_self (hf _)
  | some type =>
    have htail : ∀ j ∈ (d.graph.children i).flatMap d.graph.preorder,
        d.graph.kind? j ≠ some .root := by
      intro j hj
      obtain ⟨a, ha, hja⟩ := List.mem_flatMap.1 hj
      exact kind?_ne_root_of_mem_preorder ho (Graph.mem_children.1 ha) hja
    rw [htype, hdepth, Graph.preorder_eq, List.tail_cons] at hf
    rw [hdepth, Graph.preorder_eq, List.tail_cons, List.filter_cons_of_pos hdecl,
      Graph.reference_of_alias? hname]
    have hjoins := enters_joins ho htail (Fragment.faultless_cons.1 hf).2
    have hroot : d.Enters sub s c [i] _ := .single (.root hkind htype hname)
    simpa using hroot.append hjoins

/-- The trees under the roots, with a comma between each two of them. -/
theorem enters_roots (ho : Owned d.graph d.scopes)
    (hf : Fragment.Faultless
      (Fragment.joined ", " ((d.scopes.roots s).map (d.rootFragment sub s c)))) :
    d.Enters sub s c (((d.scopes.roots s).flatMap d.graph.preorder).filter (d.isDeclared s))
      (Fragment.joined ", " ((d.scopes.roots s).map (d.rootFragment sub s c))) := by
  have heach : ∀ i ∈ d.scopes.roots s,
      d.Enters sub s c ((d.graph.preorder i).filter (d.isDeclared s))
        ((if (d.scopes.roots s).head? = some i then [] else [.text ", "]) ++
          d.rootFragment sub s c i) := by
    intro i hi
    obtain ⟨n, hn, hk, hs⟩ := ho.exists_root hi
    refine enters_root ho hn hk hs fun e he => hf e ?_
    exact (Fragment.mem_joined rfl ", ").2 ⟨_, List.mem_map_of_mem hi, he⟩
  have hnodup : (d.scopes.roots s).Nodup := by
    rw [ho.roots]
    exact List.nodup_range.filter _
  have hall := Enters.flatMap heach
  rw [← List.filter_flatMap] at hall
  cases hr : d.scopes.roots s with
  | nil => exact Enters.nil
  | cons r rest =>
    rw [hr] at hall hnodup
    -- Only the first root is at the head of the list.
    have hrest : rest.flatMap (fun i => (if (r :: rest).head? = some i then [] else [.text ", "]) ++
        d.rootFragment sub s c i) =
        (rest.map (d.rootFragment sub s c)).flatMap (.text ", " :: ·) := by
      rw [List.flatMap_map]
      refine List.flatMap_congr fun i hi => ?_
      have hne : r ≠ i := fun h => (List.nodup_cons.1 hnodup).1 (h ▸ hi)
      simp [hne]
    rw [List.map_cons, Fragment.joined_cons, ← hrest]
    simpa using hall

/-- The trees under the attached nodes. -/
theorem enters_attached (ho : Owned d.graph d.scopes)
    (hf : Fragment.Faultless
      (((d.scopes.attached s).flatMap d.graph.preorder).flatMap (d.joinFragment sub s c))) :
    d.Enters sub s c (((d.scopes.attached s).flatMap d.graph.preorder).filter (d.isDeclared s))
      (((d.scopes.attached s).flatMap d.graph.preorder).flatMap (d.joinFragment sub s c)) := by
  refine enters_joins ho (fun i hi => ?_) hf
  obtain ⟨a, ha, hia⟩ := List.mem_flatMap.1 hi
  obtain ⟨p, hp⟩ := ho.exists_parent ha
  exact kind?_ne_root_of_mem_preorder ho hp hia

/-- **The `from` list.** If it can be written, it has an entry for each node that the scope
declares, in the order of their declaration, and nothing else. -/
theorem source_eq (ho : Owned d.graph d.scopes) (hf : (d.sourceFragment sub s c).Faultless) :
    ∃ entries, List.Forall₂ (d.Entry sub s c) (d.declared s) entries ∧
      d.sourceFragment sub s c = .text "from " :: entries.flatten := by
  have hdecl : d.declared s =
      ((d.scopes.roots s).flatMap d.graph.preorder).filter (d.isDeclared s) ++
        ((d.scopes.attached s).flatMap d.graph.preorder).filter (d.isDeclared s) := by
    rw [declared, ho.declarationOrder_eq, List.filter_filter, Scopes.starts, List.flatMap_append,
      List.filter_append]
    simp only [Bool.and_comm]
    rfl
  have hattached : (d.scopes.attached s).flatMap d.graph.depthFirst =
      (d.scopes.attached s).flatMap d.graph.preorder := by
    refine List.flatMap_congr fun i hi => Graph.depthFirst_eq (ho.lt_size_of_start (s := s) ?_)
    exact List.mem_append_right _ hi
  have hsource : d.scopes.roots s ≠ [] ∧ d.sourceFragment sub s c = .text "from " ::
      (Fragment.joined ", " ((d.scopes.roots s).map (d.rootFragment sub s c)) ++
        ((d.scopes.attached s).flatMap d.graph.preorder).flatMap (d.joinFragment sub s c)) := by
    unfold sourceFragment at hf ⊢
    split at hf
    · exact absurd List.mem_cons_self (hf _)
    · next hr => exact ⟨hr, by rw [hattached]; rfl⟩
  rw [hsource.2] at hf
  have hrest := (Fragment.faultless_cons.1 hf).2
  have hroots := enters_roots ho fun e he => hrest e (List.mem_append_left _ he)
  have hatt := enters_attached ho fun e he => hrest e (List.mem_append_right _ he)
  obtain ⟨entries, hentries, heq⟩ := hroots.append hatt
  exact ⟨entries, hdecl ▸ hentries, by rw [hsource.2, heq]⟩

end Draft

/-! ## Runs -/

namespace Stage

/-- Whether the scopes of a query declare what they own and nothing else, under aliases that stay
and are never shared. -/
structure DeclaresExactly (s : Stage) : Prop where
  /-- A declaration order has the entities of the scope, each once and after the ones above it. -/
  lists : ∀ scope, s.query.graph.Lists scope (s.query.scopes.declarationOrder s.query.graph scope)
  /-- A `from` list that can be written has the entries of the declared nodes, in this order. -/
  source : ∀ depth scope c, s.query.clauses[scope]? = some c →
    ((s.query.sections (depth + 1) scope).source).Faultless →
    ∃ entries,
      List.Forall₂ (s.query.Entry (fun inner => (s.query.sections depth inner).fragment) scope c)
        (s.query.declared scope) entries ∧
      (s.query.sections (depth + 1) scope).source = .text "from " :: entries.flatten
  /-- No two nodes reserve the same alias. -/
  distinct : ∀ i j name, s.query.graph.reserved? i = some name →
    s.query.graph.reserved? j = some name → i = j
  /-- An alias that is reserved stays what it is. -/
  kept : ∀ es i name, s.query.graph.reserved? i = some name →
    (s.run es).query.graph.reserved? i = some name

/-- **The `from` lists are exact.** -/
theorem Reachable.declaresExactly {s : Stage} (h : s.Reachable) : s.DeclaresExactly where
  lists scope := h.sound.query.owned.declarationOrder_lists scope
  source depth scope c hc hf := by
    rw [Draft.sections, hc] at hf ⊢
    exact Draft.source_eq h.sound.query.owned hf
  distinct i j name hi hj := h.sound.query.numbered.distinct hi hj
  kept es i name hi := by
    have hlt : i < s.query.graph.size := by
      obtain ⟨n, hn, -⟩ := Option.bind_eq_some_iff.1 hi
      exact Graph.lt_size_of_node? hn
    rw [(h.sound.run es).kept.query.graph.reserved?_eq hlt, hi]

/-- A query with a join, and a group in which a sub-query joins a collection of the outer root. -/
def sample : Stage :=
  (start Sample.registry .default).run
    [.call (.addFrom "Person"), .call (.access ⟨0, .root⟩ "town"),
      .call (.join ⟨1, .entity⟩ .left), .enterGroup .or, .enterSub, .call (.addFrom "Car"),
      .call (.access ⟨0, .root⟩ "cars"), .call (.join ⟨3, .collection⟩ .inner),
      .call (.access ⟨2, .root⟩ "price"),
      .call (.restrict (.filter ⟨4, .property⟩) .always (.compareParameter .gt "least")),
      .leaveSub true, .call (.hasRows 1 false), .call (.access ⟨1, .entity⟩ "name"),
      .call (.restrict (.filter ⟨5, .property⟩) .always (.isNull true)), .leaveGroup true,
      .call (.setParameter "least" (.int 9000))]

theorem exists_compile_sample : ∃ out, sample.query.compile = .ok out := by
  have hok : sample.query.compile.isOk = true := by decide +kernel
  cases hc : sample.query.compile with
  | ok out => exact ⟨out, rfl⟩
  | error e =>
    rw [hc] at hok
    cases hok

theorem sample_declaresExactly : sample.Reachable ∧ sample.DeclaresExactly ∧
    sample.query.declared 1 = [2, 3] ∧ ((sample.query.sections 2 1).source).Faultless := by
  refine ⟨reachable_start _ _ _, Reachable.declaresExactly (reachable_start _ _ _),
    by decide +kernel, ?_⟩
  refine (Fragment.exists_write_iff (.empty .positional [])).1
    ⟨"from Car hobj3 join hobj1.cars hobj4", ?_⟩
  decide +kernel

end Stage

end PathQuery
