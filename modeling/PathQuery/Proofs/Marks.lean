import PathQuery.Proofs.Address
import PathQuery.Proofs.Quiet

/-!
# What a run leaves in the graph

A run is told by its *marks*: the roots that it has declared, the addresses that it has accessed and
the join types that it has set there, in this order.

**One event** (`Graph.Grows`). An event without a mark leaves the graph as it is. Any other adds a
root or a child, finds a child that is there, or sets the join type of one node.

**A run** (`Graph.Records`). The nodes stand at the roots and at the addresses that were accessed,
and what each of them is can be told from the marks and the registry: a root has the type that it
was declared with, a child is what its segment resolves to on the type of its parent, and a join
type is the one that was set last.

Main statement: `Stage.Flat.records_run`.
-/

namespace PathQuery

/-- What an event has done to the graph, told by addresses. -/
inductive Mark
  | root (type : String)
  | access (a : Address)
  | join (a : Address) (type : Join)
deriving DecidableEq, Repr

namespace Mark

def root? : Mark → Option String
  | .root type => some type
  | _ => none

def access? : Mark → Option Address
  | .access a => some a
  | _ => none

/-- The join type that is set at an address. -/
def joinAt? (a : Address) : Mark → Option Join
  | .join b type => if b = a then some type else none
  | _ => none

end Mark

/-- The types of the roots, in the order of their declaration. -/
def rootTypes (ms : List Mark) : List String := ms.filterMap Mark.root?

/-- The addresses that were accessed. -/
def accessed (ms : List Mark) : List Address := ms.filterMap Mark.access?

/-- The join type that was set last at an address, if any. -/
def lastJoin (ms : List Mark) (a : Address) : Option Join := ms.reverse.findSome? (Mark.joinAt? a)

section

variable (ms : List Mark) (m : Mark)

theorem rootTypes_concat : rootTypes (ms ++ [m]) = rootTypes ms ++ m.root?.toList := by
  rw [rootTypes, List.filterMap_append, rootTypes]
  cases m <;> rfl

theorem accessed_concat : accessed (ms ++ [m]) = accessed ms ++ m.access?.toList := by
  rw [accessed, List.filterMap_append, accessed]
  cases m <;> rfl

theorem lastJoin_concat (a : Address) :
    lastJoin (ms ++ [m]) a = (m.joinAt? a).or (lastJoin ms a) := by
  rw [lastJoin, List.reverse_concat, List.findSome?_cons, lastJoin]
  cases m.joinAt? a <;> rfl

end

namespace Stage

/-- The mark that an event leaves, if it succeeds. -/
def mark? (s : Stage) : Event → Option Mark
  | .call (.addFrom type) =>
    match Query.addFrom type s.query with
    | (.ok _, _) => some (.root type)
    | (.error _, _) => none
  | .call (.access owner property) =>
    match Query.access owner property s.query with
    | (.ok p, q) => some (.access (q.graph.address p.node))
    | (.error _, _) => none
  | .call (.join p type) =>
    match Query.join p type s.query with
    | (.ok p, q) => some (.join (q.graph.address p.node) type)
    | (.error _, _) => none
  | _ => none

/-- The marks that a run leaves. -/
def marks : Stage → List Event → List Mark
  | _, [] => []
  | s, e :: es => (s.mark? e).toList ++ marks (s.step e) es

end Stage

/-! ## One event -/

/-- How a graph grows by an event that leaves a mark, or none. -/
inductive Graph.Grows (schema : Registry) (g : Graph) : Option Mark → Graph → Prop
  | still : Grows schema g none g
  | root (type name : String) (scope : Nat) :
    Grows schema g (some (.root type)) (g.addRoot type name scope)
  | found {i} (node : i < g.size) : Grows schema g (some (.access (g.address i))) g
  | child {g' n p r} (append : g.AppendsTo g' n) (parent : n.parent = some p)
    (untyped : n.join = none) (resolved : schema.resolve? (g.target p) n.segment = some r)
    (made : Query.childSpec schema r = ⟨n.target, n.kind, n.identifier⟩) :
    Grows schema g (some (.access (g'.address g.size))) g'
  | join {i} (node : i < g.size) (type : Join) :
    Grows schema g (some (.join (g.address i) type)) (g.setJoin i type)

namespace Query

variable {q : Query}

theorem grows_child {i c : Nat} {property : String} {q' : Query} (hi : q.Sees i)
    (hok : child i property q = (.ok c, q')) :
    q.graph.Grows q.schema (some (.access (q'.graph.address c))) q'.graph := by
  unfold child at hok
  split at hok
  · next hfound =>
    cases hok
    exact .found (Graph.hasChildAt_of_findChild? hfound).1.lt_size
  · split at hok
    · next r hr =>
      cases hok
      exact .child (appendsTo_withChild (h := .any) hi property _) rfl rfl hr rfl
    · cases hok

end Query

namespace Stage

variable {s : Stage} {e : Event}

theorem mark?_of_isQuiet (he : e.isQuiet = true) : s.mark? e = none := by
  cases e with
  | call c => cases c <;> first | rfl | cases he
  | _ => rfl

/-- What an event does to the graph is told by its mark. -/
theorem grows_step (s : Stage) (e : Event) :
    s.query.graph.Grows s.query.schema (s.mark? e) (s.step e).query.graph := by
  by_cases he : e.isQuiet = true
  · rw [mark?_of_isQuiet he, (s.keeps_step he).graph]
    exact .still
  cases e with
  | call c =>
    cases c with
    | addFrom type =>
      rw [query_step_addFrom, mark?]
      cases hr : Query.addFrom type s.query with
      | mk r q =>
        unfold Query.addFrom at hr
        split at hr <;> cases hr
        · exact .root type _ _
        · exact .still
    | access owner property =>
      rw [query_step_access, mark?]
      cases hr : Query.access owner property s.query with
      | mk r q =>
        cases r with
        | error e =>
          rw [Query.access_eq_error hr]
          exact .still
        | ok p =>
          obtain ⟨-, howner, q₁, hchild, -, rfl⟩ := Query.access_eq_ok_iff.1 hr
          have hgrows := Query.grows_child (Query.checkOwner_eq_ok_iff.1 howner).2 hchild
          exact hgrows
    | join p type =>
      have hcases := Query.join_cases p type s.query
      rw [query_step_join, mark?]
      cases hr : Query.join p type s.query with
      | mk r q =>
        rw [hr] at hcases
        rcases hcases with ⟨⟨e, rfl⟩, hkeeps⟩ | ⟨rfl, hlt, hgraph, -⟩
        · rw [hkeeps.graph]
          exact .still
        · dsimp only at hgraph ⊢
          rw [hgraph, (Graph.extends_setJoin _ _ _).address_eq hlt]
          exact .join hlt type
    | _ => exact absurd rfl he
  | _ => exact absurd rfl he

end Stage

/-! ## A run -/

namespace Graph

/-- Whether a node is what the marks and the registry say. -/
inductive Recorded (schema : Registry) (ms : List Mark) (g : Graph) (i : Nat) (n : Node) : Prop
  | root (parent : n.parent = none) (kind : n.kind = .root)
    (type : (rootTypes ms)[g.rootNumber i]? = some n.target) (identifier : n.identifier = none)
  | child {p r} (parent : n.parent = some p) (address : g.address i ∈ accessed ms)
    (resolved : schema.resolve? (g.target p) n.segment = some r)
    (made : Query.childSpec schema r = ⟨n.target, n.kind, n.identifier⟩)

/-- Whether a graph is what the marks of a run say. -/
structure Records (schema : Registry) (ms : List Mark) (g : Graph) : Prop where
  roots : g.rootNumber g.size = (rootTypes ms).length
  node : ∀ {i n}, g.node? i = some n → g.Recorded schema ms i n
  join : ∀ {i n}, g.node? i = some n → n.join = lastJoin ms (g.address i)
  /-- Every address that was accessed is that of a node. -/
  accessed : ∀ {a}, a ∈ accessed ms → ∃ i < g.size, g.address i = a
  /-- Join types are set for nodes only. -/
  joined : ∀ {a}, lastJoin ms a ≠ none → ∃ i < g.size, g.address i = a

variable {schema : Registry} {ms ms' : List Mark} {m : Mark} {g g' : Graph} {i : Nat} {n : Node}

theorem records_empty (schema : Registry) : Records schema [] .empty where
  roots := rfl
  node := nofun
  join := nofun
  accessed := nofun
  joined h := absurd rfl h

/-- What was recorded of a node stays so. -/
theorem Recorded.concat (h : g.Recorded schema ms i n) (hext : g.Extends g')
    (hn : g.node? i = some n) (m : Mark) (type : Option Join) :
    g'.Recorded schema (ms ++ [m]) i { n with join := type } := by
  have hi := lt_size_of_node? hn
  cases h with
  | root parent kind htype identifier =>
    refine .root parent kind ?_ identifier
    have hlt := (List.getElem?_eq_some_iff.1 htype).1
    rw [hext.rootNumber_eq (Nat.le_of_lt hi), rootTypes_concat, List.getElem?_append_left hlt]
    exact htype
  | @child p r parent address resolved made =>
    have hp : p < g.size := Nat.lt_trans (g.parent_lt i n p hn parent) hi
    refine .child parent ?_ ?_ made
    · rw [hext.address_eq hi, accessed_concat]
      exact List.mem_append_left _ address
    · rw [hext.target_eq hp]
      exact resolved

/-- Where no join type is set, the last one stays what it was. -/
theorem lastJoin_concat_of_none {a : Address} (hm : m.joinAt? a = none) :
    lastJoin (ms ++ [m]) a = lastJoin ms a := by
  rw [lastJoin_concat, hm]
  rfl

namespace Records

variable (h : Records schema ms g)

include h

/-- What the marks say of a node that is appended completes what they say of the nodes that there
were. -/
theorem append (happ : g.AppendsTo g' n) (huntyped : n.join = none) (hdistinct : g'.Distinct)
    (hm : ∀ a, m.joinAt? a = none)
    (hroots : g'.rootNumber g'.size = (rootTypes (ms ++ [m])).length)
    (hnode : g'.Recorded schema (ms ++ [m]) g.size n)
    (haccess : ∀ a, m.access? = some a → a = g'.address g.size) :
    Records schema (ms ++ [m]) g' := by
  have hext := happ.extends
  have hlt : g.size < g'.size := happ.size ▸ Nat.lt_succ_self _
  -- A node that there was is still at its address.
  have hold : ∀ {a}, (∃ i < g.size, g.address i = a) → ∃ i < g'.size, g'.address i = a := by
    rintro a ⟨i, hi, rfl⟩
    exact ⟨i, hext.lt_size hi, hext.address_eq hi⟩
  refine ⟨hroots, fun {i k} hk => ?_, fun {i k} hk => ?_, fun {a} ha => ?_, fun {a} ha => ?_⟩
  · rcases happ.cases hk with ⟨rfl, rfl⟩ | ⟨-, hk⟩
    · exact hnode
    · exact (h.node hk).concat hext hk m k.join
  · rw [lastJoin_concat_of_none (hm _)]
    rcases happ.cases hk with ⟨rfl, rfl⟩ | ⟨hi, hk⟩
    · rw [huntyped]
      by_contra hne
      -- The address is that of the new node alone, so no join type was set there.
      obtain ⟨j, hj, haddress⟩ := h.joined (Ne.symm hne)
      rw [← hext.address_eq hj] at haddress
      exact absurd (hdistinct (hext.lt_size hj) hlt haddress) (Nat.ne_of_lt hj)
    · rw [hext.address_eq hi, h.join hk]
  · rw [accessed_concat, List.mem_append, Option.mem_toList] at ha
    rcases ha with ha | ha
    · exact hold (h.accessed ha)
    · exact ⟨g.size, hlt, (haccess a ha).symm⟩
  · rw [lastJoin_concat_of_none (hm _)] at ha
    exact hold (h.joined ha)

/-- The number of a root that is declared is the number of those before it. -/
theorem root (type name : String) (scope : Nat)
    (hdistinct : (g.addRoot type name scope).Distinct) :
    Records schema (ms ++ [.root type]) (g.addRoot type name scope) := by
  have happ := appendsTo_addRoot g type name scope
  have hnumber : (g.addRoot type name scope).rootNumber g.size = (rootTypes ms).length :=
    (happ.extends.rootNumber_eq (Nat.le_refl _)).trans h.roots
  have hparent : (g.addRoot type name scope).parent? g.size = none := by
    rw [parent?, happ.node?_size]
    rfl
  refine h.append happ rfl hdistinct (fun _ => rfl) ?_ ?_ fun a ha => by cases ha
  · rw [happ.size, rootNumber_succ, hnumber, hparent, rootTypes_concat]
    simp [Mark.root?]
  · refine .root rfl rfl ?_ rfl
    rw [hnumber, rootTypes_concat]
    simp [Mark.root?]

/-- A child that is made is what its segment resolves to. -/
theorem child {p : Nat} {r : Resolved} (happ : g.AppendsTo g' n) (parent : n.parent = some p)
    (untyped : n.join = none) (resolved : schema.resolve? (g.target p) n.segment = some r)
    (made : Query.childSpec schema r = ⟨n.target, n.kind, n.identifier⟩)
    (hdistinct : g'.Distinct) :
    Records schema (ms ++ [.access (g'.address g.size)]) g' := by
  have hp := happ.parent?_lt_size parent
  have hparent : g'.parent? g.size = some p := by
    rw [parent?, happ.node?_size, Option.bind_some, parent]
  refine h.append happ untyped hdistinct (fun _ => rfl) ?_ ?_ fun a ha => (Option.some.inj ha).symm
  · rw [happ.size, rootNumber_succ, hparent, happ.extends.rootNumber_eq (Nat.le_refl _), h.roots,
      rootTypes_concat]
    simp [Mark.root?]
  · refine .child parent ?_ ?_ made
    · rw [accessed_concat]
      simp [Mark.access?]
    · rw [happ.extends.target_eq hp]
      exact resolved

/-- An access of a child that is there says nothing new. -/
theorem found (hi : i < g.size) : Records schema (ms ++ [.access (g.address i)]) g := by
  refine ⟨?_, fun {j n} hn => ?_, fun {j n} hn => ?_, fun {a} ha => ?_, fun {a} ha => ?_⟩
  · rw [rootTypes_concat, h.roots]
    simp [Mark.root?]
  · exact (h.node hn).concat (.refl g) hn _ n.join
  · rw [lastJoin_concat_of_none rfl]
    exact h.join hn
  · rw [accessed_concat, List.mem_append, Option.mem_toList] at ha
    rcases ha with ha | ha
    · exact h.accessed ha
    · exact ⟨i, hi, Option.some.inj ha⟩
  · rw [lastJoin_concat_of_none rfl] at ha
    exact h.joined ha

/-- A join type that is set is the last one at its address, and at no other. -/
theorem setJoin (hi : i < g.size) (type : Join) (hdistinct : g.Distinct) :
    Records schema (ms ++ [.join (g.address i) type]) (g.setJoin i type) := by
  have hext := g.extends_setJoin i type
  have hold : ∀ {a}, (∃ j < g.size, g.address j = a) →
      ∃ j < (g.setJoin i type).size, (g.setJoin i type).address j = a := by
    rintro a ⟨j, hj, rfl⟩
    exact ⟨j, hext.lt_size hj, hext.address_eq hj⟩
  refine ⟨?_, fun {j n} hn => ?_, fun {j n} hn => ?_, fun {a} ha => ?_, fun {a} ha => ?_⟩
  · rw [size_setJoin, hext.rootNumber_eq (Nat.le_refl _), h.roots, rootTypes_concat]
    simp [Mark.root?]
  · rw [node?_setJoin] at hn
    obtain ⟨k, hk, rfl⟩ := Option.map_eq_some_iff.1 hn
    have hrecorded := fun t => (h.node hk).concat hext hk (.join (g.address i) type) t
    by_cases hij : i = j
    · simpa [hij] using hrecorded (some type)
    · simpa [hij] using hrecorded k.join
  · rw [node?_setJoin] at hn
    obtain ⟨k, hk, rfl⟩ := Option.map_eq_some_iff.1 hn
    have hj := lt_size_of_node? hk
    rw [hext.address_eq hj, lastJoin_concat, Mark.joinAt?]
    by_cases hij : i = j
    · simp [hij]
    · -- Another node stands at another address.
      have hne : g.address i ≠ g.address j := fun heq => hij (hdistinct hi hj heq)
      rw [if_neg hij, if_neg hne]
      exact h.join hk
  · rw [accessed_concat] at ha
    exact hold (h.accessed (by simpa [Mark.access?] using ha))
  · rw [lastJoin_concat, Mark.joinAt?] at ha
    by_cases heq : g.address i = a
    · exact hold ⟨i, hi, heq⟩
    · rw [if_neg heq] at ha
      exact hold (h.joined ha)

/-- What the marks say of a graph they say after each event. -/
theorem grows {m : Option Mark} (hg : g.Grows schema m g') (hdistinct : g'.Distinct) :
    Records schema (ms ++ m.toList) g' := by
  cases hg with
  | still => simpa using h
  | root type name scope => exact h.root type name scope hdistinct
  | found node => exact h.found node
  | child happ parent untyped resolved made =>
    exact h.child happ parent untyped resolved made hdistinct
  | @join i node type =>
    have hext := g.extends_setJoin i type
    refine h.setJoin node type fun {j k} hj hk heq => ?_
    rw [← hext.address_eq hj, ← hext.address_eq hk] at heq
    exact hdistinct (hext.lt_size hj) (hext.lt_size hk) heq

end Records

end Graph

namespace Stage

variable {s : Stage}

/-- **What a run leaves in the graph.** In a query without sub-queries the graph is what the marks
of the run say. -/
theorem Flat.records_run {schema : Registry} {ms : List Mark} {es : List Event} (hf : s.Flat)
    (h : s.Reachable) (hschema : s.query.schema = schema)
    (hr : s.query.graph.Records schema ms) (hes : ∀ e ∈ es, e ≠ .enterSub) :
    (s.run es).Flat ∧ (s.run es).query.graph.Records schema (ms ++ s.marks es) := by
  induction es generalizing s ms with
  | nil => exact ⟨hf, by simpa [marks] using hr⟩
  | cons e es ih =>
    rw [List.forall_mem_cons] at hes
    have hflat := hf.step h hes.1
    have hreach : (s.step e).Reachable := h.run [e]
    have hkept := (h.sound.step (Event.within_any e)).kept.query.schema
    have hgrows := s.grows_step e
    rw [hschema] at hgrows
    have hnext := hr.grows hgrows (hflat.distinct hreach)
    rw [run_cons, marks, ← List.append_assoc]
    exact ih hflat hreach (hkept.trans hschema) hnext hes.2

end Stage

end PathQuery
