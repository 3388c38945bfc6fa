import PathQuery.Proofs.Compilation
import PathQuery.Proofs.Dangling

/-!
# Joins left to their default

A join without a type of its own is left to its default, the inner join. It may be so only under
an entity of its own scope: under an entity of another one a type has to be set, and without it
the query does not compile.

**Where the path starts.** The check looks at the nearest entity above the join. The path of the
join starts at the nearest node above that owns an alias (`HeadsJoin`), and the entity may own none:
its own join may be set to `none`, or left out because the foreign key suffices. So the path starts
in the same `from` list, at an alias that is declared before, as soon as any node of the scope above
the join owns an alias. Otherwise it starts in the list of an enclosing scope, and every entity of
the scope that it passes is not joined.

Main statement: `Reachable.placesDefaults`.
-/

namespace PathQuery

/-! ## The head of a join -/

/-- Whether the path of a join starts at the alias of a node, the nearest one above it that owns an
alias. -/
structure Graph.HeadsJoin (g : Graph) (a j : Nat) : Prop where
  above : a ∈ g.lineage j ∧ a ≠ j
  nearest : ∀ b ∈ g.lineage j, b ≠ j → g.ownsAlias b = true → b ∈ g.lineage a
  path : ∃ name rest, g.alias? a = some name ∧ g.joinPath j = name ++ "." ++ rest

namespace Owned

variable {g : Graph} {t : Scopes} {a j p s : Nat}

theorem exists_headsJoin (ho : Owned g t) (hp : g.parent? j = some p) :
    ∃ a, g.HeadsJoin a j := by
  have hlt : p < g.size := by
    obtain ⟨r, hr⟩ := scope?_parent hp
    exact Graph.lt_size_of_scope? hr
  obtain ⟨a, name, hap, hname, hhead, hnear⟩ := ho.exists_nearest_head hlt
  refine ⟨a, ⟨g.ancestry.mem_chain_of_up hp hap, ?_⟩, ?_, ?_⟩
  · rintro rfl
    exact absurd (g.ancestry.le_of_mem_chain hap) (Nat.not_le.2 (Graph.parent?_lt hp))
  · intro b hb hne howns
    obtain ⟨q, hq, hbq⟩ := g.ancestry.exists_up_of_mem_chain hb hne
    obtain rfl : p = q := Option.some.inj (hp.symm.trans hq)
    exact hnear b hbq howns
  · obtain ⟨rest, hrest⟩ := hhead.segment (g.segment j)
    exact ⟨name, rest, hname, by rw [Graph.joinPath, hp]; exact hrest⟩

/-- The head of a join is of the scope of the join if any owner of an alias above it is. -/
theorem scope?_of_headsJoin (ho : Owned g t) (ha : g.HeadsJoin a j) {b : Nat}
    (hb : b ∈ g.lineage j) (hne : b ≠ j) (howns : g.ownsAlias b = true)
    (hbs : g.scope? b = some s) (hjs : g.scope? j = some s) : g.scope? a = some s :=
  ho.scope?_of_between (ha.nearest b hb hne howns) ha.above.1 hbs hjs

end Owned

/-- An entity that owns no alias is not joined, and is no root. -/
theorem Graph.joinType_of_not_ownsAlias {g : Graph} {i : Nat} {k : NodeKind}
    (hk : g.kind? i = some k) (he : k.isEntity = true) (h : g.ownsAlias i = false) :
    k ≠ .root ∧ g.joinType i = .none := by
  rw [ownsAlias, hk] at h
  cases k with
  | root => cases h
  | entity | collection => exact ⟨by simp, by simpa using h⟩
  | composite | property => cases he

/-! ## Scopes -/

/-- Whether a scope declares a join whose type is left to the default. -/
structure Draft.Defaults (d : Draft) (s j : Nat) : Prop where
  declared : j ∈ d.declared s
  kind : d.graph.kind? j ≠ some .root
  unset : (d.graph.node? j).bind (·.join) = none

namespace Query

/-- Where a join of a scope starts whose type is left to the default. -/
structure StartsDefault (q : Query) (s j : Nat) : Prop where
  /-- The entity above the join is of the scope. -/
  entity : ∃ p, q.graph.parent? j = some p ∧ q.graph.scope? (q.graph.nearestEntity p) = some s
  /-- If the scope declares a node above the join, the path starts at such a node, which the scope
  declares before the join. -/
  inside : (∃ b ∈ q.declared s, b ∈ q.graph.lineage j ∧ b ≠ j) →
    ∃ a, q.graph.HeadsJoin a j ∧ [a, j].Sublist (q.declared s)
  /-- Otherwise it starts at a node that an enclosing scope declares. -/
  outside : (∀ b ∈ q.declared s, b ∈ q.graph.lineage j → b = j) →
    ∃ a t, q.graph.HeadsJoin a j ∧ t ≠ s ∧ q.scopes.encloses t s = true ∧ a ∈ q.declared t
  /-- In that case no entity of the scope above the join is a root or joined. -/
  skipped : (∀ b ∈ q.declared s, b ∈ q.graph.lineage j → b = j) →
    ∀ b n, b ∈ q.graph.lineage j → b ≠ j → q.graph.node? b = some n → n.scope = s →
      n.kind.isEntity = true → n.kind ≠ .root ∧ q.graph.joinType b = .none

/-- What becomes of a query with a join that has to name its type and does not. -/
structure RefusesDefault (q : Query) (s i : Nat) : Prop where
  /-- The path of the join meets no alias of the scope. -/
  path : ∀ b ∈ q.declared s, b ∈ q.graph.lineage i → b = i
  /-- The query does not compile. -/
  fails : ∀ out, q.compile ≠ .ok out
  /-- Among the faults of its text there is one that names the join. -/
  fault : q.scopes.roots s ≠ [] →
    ∃ f ∈ q.rendered.toList, .fault (.joinTypeRequired (q.graph.describe i)) ∈ f
  /-- The error is that a join type is required, unless something else is wrong too. -/
  error : q.pending.isEmpty = true →
    (∀ f ∈ q.rendered.toList, ∀ e, .fault e ∈ f → ∃ path, e = .joinTypeRequired path) →
    ∃ path, q.compile = .error (.joinTypeRequired path)

/-- Where the joins of a scope start whose types are left to the default. -/
structure PlacesDefaults (q : Query) (s : Nat) : Prop where
  starts : ∀ out, q.compile = .ok out → ∀ j, q.Defaults s j → q.StartsDefault s j
  refuses : ∀ i, q.LacksJoinType s i → q.RefusesDefault s i

variable {h : Nat → Handles} {q : Query} {i j s : Nat}

theorem Sound.fault_of_lacksJoinType (hq : q.Sound h) (hr : q.Renders s)
    (hi : q.LacksJoinType s i) (hroots : q.scopes.roots s ≠ []) :
    ∃ f ∈ q.rendered.toList, .fault (.joinTypeRequired (q.graph.describe i)) ∈ f := by
  obtain ⟨hjoined, hneeds⟩ := Draft.lacksJoinType_iff.1 hi
  exact (hq.mem_rendered rfl).2 ⟨s, hr, .untyped i hroots hjoined hneeds rfl⟩

/-- A query that compiles lacks no join type. -/
theorem Sound.not_lacksJoinType (hq : q.Sound h) (hr : q.Renders s) {out : Compiled}
    (hc : q.compile = .ok out) : ¬ q.LacksJoinType s i := by
  intro hi
  have hfree := Draft.exists_compile_iff.1 ⟨out, toDraft_of_compile hc⟩
  by_cases hroots : q.scopes.roots s = []
  · obtain ⟨f, hf, he⟩ := (hq.mem_rendered rfl).2 ⟨s, hr, .noRoots hroots rfl⟩
    exact hfree f hf _ he
  · obtain ⟨f, hf, he⟩ := hq.fault_of_lacksJoinType hr hi hroots
    exact hfree f hf _ he

/-- A join left to its default stands under an entity of its scope. -/
theorem Sound.entity_of_defaults (hq : q.Sound h) (hr : q.Renders s) {out : Compiled}
    (hc : q.compile = .ok out) (hj : q.Defaults s j) :
    ∃ p, q.graph.parent? j = some p ∧ q.graph.scope? (q.graph.nearestEntity p) = some s := by
  obtain ⟨p, hp⟩ := hq.exists_parent_of_declared hj.declared hj.kind
  refine ⟨p, hp, ?_⟩
  by_contra hother
  obtain ⟨n, hn, hscope⟩ := Graph.scope?_eq_some_iff.1 (hq.scope?_of_declared hj.declared)
  have hkind : n.kind ≠ .root := fun hk => hj.kind (by rw [Graph.kind?, hn, Option.map_some, hk])
  have hunset : n.join = none := by simpa [hn] using hj.unset
  have hparent : n.parent = some p := by simpa [Graph.parent?, hn] using hp
  exact hq.not_lacksJoinType hr hc
    ⟨n, p, hn, hscope, hkind, (List.mem_filter.1 hj.declared).2, hunset, hparent, hother⟩

/-- The head of a join is declared by a scope around it. -/
theorem Sound.declared_of_headsJoin (hq : q.Sound h) {a : Nat} (ha : q.graph.HeadsJoin a j)
    (hj : q.graph.scope? j = some s) :
    ∃ t, q.scopes.encloses t s = true ∧ a ∈ q.declared t := by
  obtain ⟨name, -, hname, -⟩ := ha.path
  obtain ⟨n, hn, -⟩ := Graph.isEntity_of_ownsAlias (Graph.ownsAlias_of_alias? hname)
  have hscope := Graph.scope?_eq_some_iff.2 ⟨n, hn, rfl⟩
  exact ⟨n.scope, hq.owned.encloses_of_mem_lineage ha.above.1 hscope hj,
    hq.mem_declared hname hscope⟩

theorem Sound.startsDefault (hq : q.Sound h) (hr : q.Renders s) {out : Compiled}
    (hc : q.compile = .ok out) (hj : q.Defaults s j) : q.StartsDefault s j := by
  have hjs := hq.scope?_of_declared hj.declared
  obtain ⟨p, hp, hentity⟩ := hq.entity_of_defaults hr hc hj
  obtain ⟨a, ha⟩ := hq.owned.exists_headsJoin hp
  obtain ⟨t, henc, hat⟩ := hq.declared_of_headsJoin ha hjs
  refine ⟨⟨p, hp, hentity⟩, ?_, ?_, ?_⟩
  · rintro ⟨b, hb, hbj, hne⟩
    have howns : q.graph.ownsAlias b = true := (List.mem_filter.1 hb).2
    have has := hq.owned.scope?_of_headsJoin ha hbj hne howns (hq.scope?_of_declared hb) hjs
    obtain rfl : t = s := Option.some.inj ((hq.scope?_of_declared hat).symm.trans has)
    exact ⟨a, ha, hq.pair_sublist_declared hat hj.declared ha.above.1 ha.above.2⟩
  · intro hnone
    refine ⟨a, t, ha, ?_, henc, hat⟩
    rintro rfl
    exact ha.above.2 (hnone a hat ha.above.1)
  · intro hnone b n hbj hne hn hbs he
    have hscope : q.graph.scope? b = some s := Graph.scope?_eq_some_iff.2 ⟨n, hn, hbs⟩
    have howns : q.graph.ownsAlias b = false := by
      by_contra howns
      rw [Bool.not_eq_false] at howns
      obtain ⟨name, hname⟩ := hq.owned.exists_alias? howns
      exact hne (hnone b (hq.mem_declared hname hscope) hbj)
    exact Graph.joinType_of_not_ownsAlias (by rw [Graph.kind?, hn]; rfl) he howns

/-- Above a join that has to name its type its scope declares nothing: between two nodes of the
scope the path would not leave it. -/
theorem Sound.path_of_lacksJoinType (hq : q.Sound h) (hi : q.LacksJoinType s i) {b : Nat}
    (hb : b ∈ q.declared s) (hbi : b ∈ q.graph.lineage i) : b = i := by
  by_contra hne
  obtain ⟨n, p, hn, hscope, -, -, -, hparent, hother⟩ := hi
  have hp : q.graph.parent? i = some p := Graph.parent?_eq_some_iff.2 ⟨n, hn, hparent⟩
  have his : q.graph.scope? i = some s := Graph.scope?_eq_some_iff.2 ⟨n, hn, hscope⟩
  obtain ⟨p', hp', hbp⟩ := q.graph.ancestry.exists_up_of_mem_chain hbi hne
  obtain rfl : p = p' := Option.some.inj (hp.symm.trans hp')
  have hentity : (q.graph.kind? b).any (·.isEntity) = true := by
    obtain ⟨m, hm, he⟩ := Graph.isEntity_of_ownsAlias (List.mem_filter.1 hb).2
    simpa [Graph.kind?, hm] using he
  have hbe := Graph.mem_lineage_nearestEntity hbp hentity
  have hei := q.graph.ancestry.mem_chain_of_up hp (q.graph.nearestEntity_mem_lineage p)
  exact hother (hq.owned.scope?_of_between hbe hei (hq.scope?_of_declared hb) his)

theorem Sound.refusesDefault (hq : q.Sound h) (hr : q.Renders s) (hi : q.LacksJoinType s i) :
    q.RefusesDefault s i where
  path _ hb hbi := hq.path_of_lacksJoinType hi hb hbi
  fails _ hc := hq.not_lacksJoinType hr hc hi
  fault hroots := hq.fault_of_lacksJoinType hr hi hroots
  error hp honly := by
    cases hc : q.compile with
    | ok out => exact absurd hi (hq.not_lacksJoinType hr hc)
    | error e =>
      rw [compile, if_pos hp] at hc
      obtain ⟨f, hf, he⟩ := Draft.fault_of_compile hc
      obtain ⟨path, rfl⟩ := honly f hf e he
      exact ⟨path, rfl⟩

end Query

/-! ## Runs -/

namespace Stage

/-- **Where joins start that are left to their default.** -/
theorem Reachable.placesDefaults {s : Stage} (h : s.Reachable) {scope : Nat}
    (hr : s.query.Renders scope) : s.query.PlacesDefaults scope where
  starts _ hc _ hj := h.sound.query.startsDefault hr hc hj
  refuses _ hi := h.sound.query.refusesDefault hr hi

/-- A sub-query with a join that is left to its default, to the town of the owner of a car. -/
def sampleOwners : Stage :=
  (start Sample.registry .default).run
    [.call (.addFrom "Person"), .enterSub, .call (.addFrom "Car"),
      .call (.access ⟨1, .root⟩ "owner"), .call (.access ⟨2, .entity⟩ "town"),
      .call (.access ⟨3, .entity⟩ "name"),
      .call (.restrict (.filter ⟨4, .property⟩) .always (.isNull true)),
      .leaveSub true, .call (.hasRows 1 false)]

theorem sampleOwners_placesDefaults : sampleOwners.Reachable ∧ sampleOwners.query.Renders 1 ∧
    sampleOwners.query.Defaults 1 3 ∧
    sampleOwners.query.compile.map (·.text) = .ok ("from Person hobj1 where exists (" ++
      "from Car hobj2 join hobj2.owner hobj3 join hobj3.town hobj4 where hobj4.name is not null)") ∧
    sampleOwners.query.PlacesDefaults 1 := by
  have hr : sampleOwners.query.Renders 1 := Draft.renders_of_filter (by decide +kernel)
  have hj : sampleOwners.query.Defaults 1 3 :=
    ⟨by decide +kernel, by decide +kernel, by decide +kernel⟩
  exact ⟨reachable_start _ _ _, hr, hj, by decide +kernel,
    Reachable.placesDefaults (reachable_start _ _ _) hr⟩

/-- Towns that are identified by the country they belong to. -/
def townOfCountry : MappedType :=
  .entity "Town" (some "country") [⟨"country", .reference "Country"⟩, ⟨"name", .scalar "String"⟩]

/-- A sub-query that reaches the country of the town of an outer person. The town is written by its
foreign key and has no join; the country is joined by default under it. -/
def sampleCountries : Stage :=
  (start (.ofList [Sample.person, townOfCountry, Sample.car, Sample.country]) .default).run
    [.call (.addFrom "Person"), .enterSub, .call (.addFrom "Car"),
      .call (.access ⟨0, .root⟩ "town"), .call (.access ⟨2, .entity⟩ "country"),
      .call (.access ⟨3, .entity⟩ "name"), .call (.select ⟨4, .property⟩),
      .leaveSub true, .call (.hasRows 1 false)]

/-- A join that is left to its default can start at an alias of an enclosing query, also when no
join type is set anywhere. -/
theorem default_joins_outer : ∃ (s : Stage) (scope j : Nat), s.Reachable ∧
    s.query.Renders scope ∧ s.query.Defaults scope j ∧
    s.query.compile.map (·.text) = .ok ("from Person hobj1 where exists (" ++
      "select hobj4.name from Car hobj2 join hobj1.town.country hobj4)") ∧
    ∀ a name, a ∈ s.query.declared scope → s.query.graph.alias? a = some name →
      ¬ name.toList <+: (s.query.graph.joinPath j).toList := by
  have hr : sampleCountries.query.Renders 1 := Draft.renders_of_filter (by decide +kernel)
  have hj : sampleCountries.query.Defaults 1 3 :=
    ⟨by decide +kernel, by decide +kernel, by decide +kernel⟩
  refine ⟨sampleCountries, 1, 3, reachable_start _ _ _, hr, hj, by decide +kernel, ?_⟩
  have hdeclared : sampleCountries.query.declared 1 = [1, 3] := by decide +kernel
  intro a name ha hname
  rw [hdeclared] at ha
  have hcases : a = 1 ∨ a = 3 := by simpa using ha
  rcases hcases with rfl | rfl
  · have halias : sampleCountries.query.graph.alias? 1 = some "hobj2" := by decide +kernel
    obtain rfl : "hobj2" = name := Option.some.inj (halias.symm.trans hname)
    decide +kernel
  · have halias : sampleCountries.query.graph.alias? 3 = some "hobj4" := by decide +kernel
    obtain rfl : "hobj4" = name := Option.some.inj (halias.symm.trans hname)
    decide +kernel

end Stage

end PathQuery
