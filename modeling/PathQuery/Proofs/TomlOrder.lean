import PathQuery.Proofs.JsonOrder
import PathQuery.Toml.Reader

/-!
# The values of TOML texts

A TOML text builds a tree of tables whose keys stand in the order in which they were given. Only
when the tree becomes a JSON value its members are put in their order, each table on its own. The
values below the tables are numbers, texts and truth values, so they are canonical (`Node.Plain`).
What is read from a text brings no other values into the tree, and no statement does.

Main statement: `canonical_of_read`.
-/

namespace PathQuery.Toml

variable {α β : Type} {P : α → Prop} {Q : β → Prop} {cs rest : List Char} {v : Json}
  {ms ms' : Members}

/-! ## What readers take -/

/-- Whether what is taken from a text, if something is, has a property. -/
def Takes (P : α → Prop) (taken : Option (α × List Char)) : Prop :=
  ∀ a rest, taken = some (a, rest) → P a

theorem takes_none : Takes P none := fun _ _ h => by cases h

theorem takes_some {a : α} (h : P a) : Takes P (some (a, rest)) := by
  intro b rest' heq
  cases heq
  exact h

theorem takes_bind {x : Option β} {f : β → Option (α × List Char)}
    (h : ∀ b, x = some b → Takes P (f b)) : Takes P (x >>= f) := by
  intro a rest heq
  obtain ⟨b, hb, hf⟩ := Option.bind_eq_some_iff.1 heq
  exact h b hb a rest hf

theorem takes_map {x : Option (β × List Char)} {f : β × List Char → α × List Char}
    (h : Takes Q x) (hf : ∀ b rest, Q b → P (f (b, rest)).1) : Takes P (x.map f) := by
  intro a rest heq
  obtain ⟨⟨b, rest'⟩, hb, hab⟩ := Option.map_eq_some_iff.1 heq
  have hfirst : (f (b, rest')).1 = a := by rw [hab]
  rw [← hfirst]
  exact hf b rest' (h b rest' hb)

/-! ## Numbers -/

theorem canonical_integer {negative : Bool} {m : Nat} (h : integer? negative m = some v) :
    v.Canonical := by
  simp only [integer?, Option.ite_none_right_eq_some] at h
  obtain ⟨-, h⟩ := h
  cases h
  trivial

theorem canonical_double {d : Double} (h : double? d = some v) : v.Canonical := by
  unfold double? at h
  split at h
  · cases h
    trivial
  · split at h
    · cases h
      trivial
    · cases h

theorem takes_radixInteger (radix : Nat) (cs : List Char) :
    Takes Json.Canonical (radixInteger radix cs) := by
  apply takes_bind
  intro digits _
  apply takes_bind
  intro w hw
  exact takes_some (canonical_integer hw)

theorem takes_decimal (negative : Bool) (whole : List Nat) (cs : List Char) :
    Takes Json.Canonical (decimal negative whole cs) := by
  have hdouble : ∀ (d : Double) (rest : List Char),
      Takes Json.Canonical (do return (← double? d, rest)) := by
    intro d rest
    apply takes_bind
    intro w hw
    exact takes_some (canonical_double hw)
  have hexponent : ∀ (fraction : List Nat) (cs : List Char), Takes Json.Canonical
      (exponent cs >>= fun x => double? (.ofDecimal negative (ofDigits 10 (whole ++ fraction))
        (x.1 - fraction.length)) >>= fun w => pure (w, x.2)) := by
    intro fraction cs
    apply takes_bind
    intro x _
    exact hdouble _ _
  unfold decimal
  split
  · apply takes_bind
    rintro ⟨fraction, rest⟩ _
    dsimp only
    split
    · exact hexponent fraction _
    · exact hexponent fraction _
    · exact hdouble _ _
  · exact hexponent [] _
  · exact hexponent [] _
  · apply takes_bind
    intro w hw
    exact takes_some (canonical_integer hw)

theorem takes_number (cs : List Char) : Takes Json.Canonical (number cs) := by
  unfold number
  split
  · exact takes_radixInteger 16 _
  · exact takes_radixInteger 8 _
  · exact takes_radixInteger 2 _
  · split
    · exact takes_some trivial
    · exact takes_some trivial
    · apply takes_bind
      intro digits _
      exact takes_decimal _ _ _

/-! ## Trees -/

mutual

/-- Whether the values below the tables of a node are canonical. -/
def Node.Plain : Node → Prop
  | .value content => content.Canonical
  | .moment _ => True
  | .list items => PlainItems items
  | .table _ members => PlainMembers members
  | .elements tables => PlainTables tables

def PlainItems : List Node → Prop
  | [] => True
  | node :: rest => node.Plain ∧ PlainItems rest

def PlainMembers : List (String × Node) → Prop
  | [] => True
  | (_, node) :: rest => node.Plain ∧ PlainMembers rest

def PlainTables : List (List (String × Node)) → Prop
  | [] => True
  | members :: rest => PlainMembers members ∧ PlainTables rest

end

mutual

/-- A plain node has a canonical value. -/
theorem Node.Plain.canonical : ∀ {node : Node} {j : Json}, node.Plain →
    node.toJson? = some j → j.Canonical
  | .value content, j, hn, h => by
    cases h
    exact hn
  | .moment text, j, hn, h => by
    cases h
    trivial
  | .list items, j, hn, h => by
    obtain ⟨vs, hvs, rfl⟩ := Option.map_eq_some_iff.1 h
    exact PlainItems.canonical hn hvs
  | .table origin members, j, hn, h => PlainMembers.canonical_table hn h
  | .elements tables, j, hn, h => by
    obtain ⟨vs, hvs, rfl⟩ := Option.map_eq_some_iff.1 h
    exact PlainTables.canonical hn hvs

theorem PlainMembers.canonical_table : ∀ {members : List (String × Node)} {j : Json},
    PlainMembers members → tableToJson? members = some j → j.Canonical
  | [], j, hn, h => by
    cases h
    exact ⟨List.Pairwise.nil, trivial⟩
  | (key, node) :: rest, j, hn, h => by
    rw [tableToJson?] at h
    split at h
    · obtain ⟨text, -, rfl⟩ := Option.map_eq_some_iff.1 h
      trivial
    · simp only [Option.bind_eq_bind, Option.bind_eq_some_iff] at h
      obtain ⟨v, hv, vs, hvs, h⟩ := h
      cases h
      have hmembers : Json.CanonicalMembers ((key, v) :: vs) :=
        ⟨Node.Plain.canonical hn.1 hv, PlainMembers.canonical hn.2 hvs⟩
      exact ⟨Json.ordered_ofMembers _, hmembers.ofMembers⟩

theorem PlainMembers.canonical : ∀ {members : List (String × Node)} {vs : List (String × Json)},
    PlainMembers members → membersToJson? members = some vs → Json.CanonicalMembers vs
  | [], vs, hn, h => by
    cases h
    trivial
  | (key, node) :: rest, vs, hn, h => by
    simp only [membersToJson?, Option.bind_eq_bind, Option.bind_eq_some_iff] at h
    obtain ⟨v, hv, values, hvalues, h⟩ := h
    cases h
    exact ⟨Node.Plain.canonical hn.1 hv, PlainMembers.canonical hn.2 hvalues⟩

theorem PlainItems.canonical : ∀ {items : List Node} {vs : List Json},
    PlainItems items → nodesToJson? items = some vs → Json.CanonicalItems vs
  | [], vs, hn, h => by
    cases h
    trivial
  | node :: rest, vs, hn, h => by
    simp only [nodesToJson?, Option.bind_eq_bind, Option.bind_eq_some_iff] at h
    obtain ⟨v, hv, values, hvalues, h⟩ := h
    cases h
    exact ⟨Node.Plain.canonical hn.1 hv, PlainItems.canonical hn.2 hvalues⟩

theorem PlainTables.canonical : ∀ {tables : List (List (String × Node))} {vs : List Json},
    PlainTables tables → tablesToJson? tables = some vs → Json.CanonicalItems vs
  | [], vs, hn, h => by
    cases h
    trivial
  | members :: rest, vs, hn, h => by
    simp only [tablesToJson?, Option.bind_eq_bind, Option.bind_eq_some_iff] at h
    obtain ⟨v, hv, values, hvalues, h⟩ := h
    cases h
    exact ⟨PlainMembers.canonical_table hn.1 hv, PlainTables.canonical hn.2 hvalues⟩

end

theorem plainMembers_iff : PlainMembers ms ↔ ∀ m ∈ ms, m.2.Plain := by
  induction ms with
  | nil => simp [PlainMembers]
  | cons m ms ih =>
    obtain ⟨key, node⟩ := m
    simp [PlainMembers, ih]

theorem plainTables_iff {tables : List Members} :
    PlainTables tables ↔ ∀ t ∈ tables, PlainMembers t := by
  induction tables with
  | nil => simp [PlainTables]
  | cons t tables ih => simp [PlainTables, ih]

/-! ## Changes of a tree -/

variable {key : String} {node : Node}

theorem PlainMembers.append (h : PlainMembers ms) (h' : PlainMembers ms') :
    PlainMembers (ms ++ ms') := by
  rw [plainMembers_iff] at h h' ⊢
  intro m hm
  exact (List.mem_append.1 hm).elim (h m) (h' m)

theorem PlainMembers.lookup (h : PlainMembers ms) (hkey : List.lookup key ms = some node) :
    node.Plain := by
  obtain ⟨l₁, l₂, rfl, -⟩ := List.lookup_eq_some_iff.1 hkey
  exact plainMembers_iff.1 h (key, node) (by simp)

theorem PlainMembers.put (h : PlainMembers ms) (hnode : node.Plain) :
    PlainMembers (ms.put key node) := by
  induction ms with
  | nil => exact ⟨hnode, trivial⟩
  | cons m ms ih =>
    obtain ⟨k, n⟩ := m
    rw [Members.put]
    split
    · exact ⟨hnode, h.2⟩
    · exact ⟨h.1, ih h.2⟩

/-- A change of one table leaves the tree plain if it leaves the table plain. -/
theorem PlainMembers.alter {dotted : Bool} {change : Origin → Members → Option Members}
    (hchange : ∀ {origin ms ms'}, PlainMembers ms → change origin ms = some ms' → PlainMembers ms')
    {path : List String} {origin : Origin} (h : PlainMembers ms)
    (halter : Members.alter dotted change path origin ms = some ms') : PlainMembers ms' := by
  induction path generalizing origin ms ms' with
  | nil => exact hchange h halter
  | cons key path ih =>
    rw [Members.alter] at halter
    split at halter
    · obtain ⟨inner, hinner, rfl⟩ := Option.map_eq_some_iff.1 halter
      have hnone : PlainMembers [] := trivial
      exact h.put (ih hnone hinner)
    · next origin members hkey =>
      split at halter
      · cases halter
      · obtain ⟨inner, hinner, rfl⟩ := Option.map_eq_some_iff.1 halter
        exact h.put (ih (h.lookup hkey) hinner)
    · next tables hkey =>
      have htables := plainTables_iff.1 (h.lookup hkey)
      split at halter
      · cases halter
      · next last hlast =>
        obtain ⟨inner, hinner, rfl⟩ := Option.map_eq_some_iff.1 halter
        have hnew : PlainMembers inner := ih (htables last (List.mem_of_getLast? hlast)) hinner
        apply h.put
        apply plainTables_iff.2
        intro t ht
        rcases List.mem_append.1 ht with hold | hlast
        · exact htables t (List.dropLast_subset tables hold)
        · rwa [List.mem_singleton.1 hlast]
    · cases halter

theorem PlainMembers.openTable {path : List String} (h : PlainMembers ms)
    (hopen : ms.openTable path key = some ms') : PlainMembers ms' := by
  refine PlainMembers.alter ?_ h hopen
  intro origin ms ms' h hchange
  split at hchange
  · cases hchange
    exact h.append ⟨trivial, trivial⟩
  · next inner hkey =>
    cases hchange
    have hrest : PlainMembers (ms.filter (·.1 != key)) := by
      rw [plainMembers_iff] at h ⊢
      exact fun m hm => h m (List.mem_of_mem_filter hm)
    have hinner : PlainMembers inner := h.lookup hkey
    exact hrest.append ⟨hinner, trivial⟩
  · cases hchange

theorem PlainMembers.addElement {path : List String} (h : PlainMembers ms)
    (hadd : ms.addElement path key = some ms') : PlainMembers ms' := by
  refine PlainMembers.alter ?_ h hadd
  intro origin ms ms' h hchange
  split at hchange
  · cases hchange
    exact h.put ⟨trivial, trivial⟩
  · next tables hkey =>
    cases hchange
    apply h.put
    apply plainTables_iff.2
    intro t ht
    rcases List.mem_append.1 ht with hold | hnew
    · exact plainTables_iff.1 (h.lookup hkey) t hold
    · rw [List.mem_singleton.1 hnew]
      trivial
  · cases hchange

theorem PlainMembers.give {path : List String} (h : PlainMembers ms) (hnode : node.Plain)
    (hgive : ms.give path key node = some ms') : PlainMembers ms' := by
  refine PlainMembers.alter ?_ h hgive
  intro origin ms ms' h hchange
  split at hchange
  · cases hchange
  · split at hchange
    · cases hchange
      exact h.put hnode
    · cases hchange

theorem PlainMembers.giveUnder {header path : List String} (h : PlainMembers ms)
    (hnode : node.Plain) (hgive : ms.giveUnder header path key node = some ms') :
    PlainMembers ms' :=
  PlainMembers.alter (fun h hchange => h.give hnode hchange) h hgive

/-! ## Reading a tree -/

theorem takes_any (taken : Option (β × List Char)) : Takes (fun _ => True) taken :=
  fun _ _ _ => trivial

/-- Values, items of arrays and pairs of tables in braces are read with the same fuel. -/
theorem takes_plain (fuel : Nat) : (∀ depth cs, Takes Node.Plain (value fuel depth cs)) ∧
    (∀ depth cs, Takes PlainItems (items fuel depth cs)) ∧
    ∀ depth ms cs, PlainMembers ms → Takes PlainMembers (pairs fuel depth ms cs) := by
  induction fuel with
  | zero => exact ⟨fun _ _ => takes_none, fun _ _ => takes_none, fun _ _ _ _ => takes_none⟩
  | succ fuel ih =>
    obtain ⟨hvalue, hitems, hpairs⟩ := ih
    refine ⟨?value, ?items, ?pairs⟩
    case value =>
      intro depth cs
      unfold value
      split
      · exact takes_map (takes_any _) fun _ _ _ => trivial
      · exact takes_map (takes_any _) fun _ _ _ => trivial
      · split
        · exact takes_none
        · exact takes_map (hitems _ _) fun _ _ h => h
      · split
        · exact takes_none
        · split
          · exact takes_some trivial
          · exact takes_map (hpairs _ _ _ trivial) fun _ _ h => h
      · exact takes_some trivial
      · exact takes_some trivial
      · split
        · exact takes_some trivial
        · exact takes_map (takes_number _) fun _ _ h => h
    case items =>
      intro depth cs
      unfold items
      apply takes_bind
      intro rest _
      split
      · exact takes_some trivial
      · apply takes_bind
        rintro ⟨item, rest⟩ hitem
        have hplain : item.Plain := hvalue _ _ item rest hitem
        apply takes_bind
        intro rest' _
        split
        · exact takes_some ⟨hplain, trivial⟩
        · apply takes_bind
          rintro ⟨items, rest⟩ hitems'
          exact takes_some ⟨hplain, hitems _ _ items rest hitems'⟩
        · exact takes_none
    case pairs =>
      intro depth ms cs hms
      unfold pairs
      apply takes_bind
      rintro ⟨⟨path, name⟩, rest⟩ _
      dsimp only
      split
      · apply takes_bind
        rintro ⟨content, rest'⟩ hcontent
        apply takes_bind
        intro ms' hgive
        have hplain : PlainMembers ms' := hms.give (hvalue _ _ content rest' hcontent) hgive
        split
        · exact takes_some hplain
        · exact hpairs _ _ _ hplain
        · exact takes_none
      · exact takes_none

/-! ## Statements -/

/-- Whether what a statement gives a key is plain. -/
def Statement.Plain : Statement → Prop
  | .pair _ _ content => content.Plain
  | .table .. | .element .. => True

theorem takes_statement (cs : List Char) : Takes Statement.Plain (statement cs) := by
  unfold statement
  split
  case h_1 | h_2 =>
    -- headers bring no value
    apply takes_bind
    rintro ⟨⟨path, name⟩, rest⟩ _
    dsimp only
    split
    · apply takes_bind
      intro rest' _
      exact takes_some trivial
    · exact takes_none
  · apply takes_bind
    rintro ⟨⟨path, name⟩, rest⟩ _
    dsimp only
    split
    · next cs =>
      apply takes_bind
      rintro ⟨content, rest'⟩ hcontent
      have hplain : content.Plain := (takes_plain _).1 _ _ content rest' hcontent
      apply takes_bind
      intro rest'' _
      exact takes_some hplain
    · exact takes_none

theorem plain_of_statements {fuel : Nat} {ss : List Statement}
    (h : statements fuel cs = some ss) : ∀ s ∈ ss, s.Plain := by
  induction fuel generalizing cs ss with
  | zero => cases h
  | succ fuel ih =>
    rw [statements] at h
    split at h
    · cases h
      simp
    · obtain ⟨rest, -, hrest⟩ := Option.bind_eq_some_iff.1 h
      exact ih hrest
    · split at h
      · exact ih h
      · simp only [Option.bind_eq_bind, Option.bind_eq_some_iff] at h
        obtain ⟨⟨s, rest⟩, hs, ss', hrest, h⟩ := h
        cases h
        exact List.forall_mem_cons.2 ⟨takes_statement _ s rest hs, ih hrest⟩

/-- No statement brings a value into the tree that is not plain. -/
theorem PlainMembers.run {ss : List Statement} (hss : ∀ s ∈ ss, s.Plain) {header : List String}
    (h : PlainMembers ms) (hrun : run header ss ms = some ms') : PlainMembers ms' := by
  induction ss generalizing header ms with
  | nil =>
    cases hrun
    exact h
  | cons s ss ih =>
    rw [List.forall_mem_cons] at hss
    cases s with
    | table path key =>
      obtain ⟨root, hroot, hrun⟩ := Option.bind_eq_some_iff.1 hrun
      exact ih hss.2 (h.openTable hroot) hrun
    | element path key =>
      obtain ⟨root, hroot, hrun⟩ := Option.bind_eq_some_iff.1 hrun
      exact ih hss.2 (h.addElement hroot) hrun
    | pair path key content =>
      obtain ⟨root, hroot, hrun⟩ := Option.bind_eq_some_iff.1 hrun
      exact ih hss.2 (h.giveUnder hss.1 hroot) hrun

/-- **The value of a TOML text is canonical.** -/
theorem canonical_of_read {s : String} (h : read? s = some v) : v.Canonical := by
  simp only [read?, Option.bind_eq_bind, Option.bind_eq_some_iff] at h
  obtain ⟨ss, hss, root, hrun, hroot⟩ := h
  have hempty : PlainMembers [] := trivial
  exact (hempty.run (plain_of_statements hss) hrun).canonical_table hroot

end PathQuery.Toml
