import PathQuery.Proofs.Ownership

/-!
# Aliases are never shared

One supply numbers the aliases of all scopes, and a number is written in one way. So an alias that
is handed out differs from every alias that a node has reserved before (`Numbered`).
-/

namespace PathQuery

/-- A text with a number at its end tells the number. -/
theorem append_toString_injective {s : String} {n m : Nat}
    (h : s ++ toString n = s ++ toString m) : n = m := by
  have hl := congrArg String.toList h
  rw [String.toList_append, String.toList_append] at hl
  have hdigits : Nat.toDigits 10 n = Nat.toDigits 10 m := by
    simpa [Nat.toString_eq_repr] using List.append_cancel_left hl
  simpa [Nat.ofDigitChars_toDigits] using congrArg (Nat.ofDigitChars 10 · 0) hdigits

theorem AliasSupply.nth_injective {a : AliasSupply} {n m : Nat} (h : a.nth n = a.nth m) :
    n = m :=
  append_toString_injective h

/-- The alias that a node has reserved. -/
def Graph.reserved? (g : Graph) (i : Nat) : Option String := (g.node? i).bind (·.reservedAlias)

/-- Every reserved alias was handed out by the supply, to one node only. -/
structure Numbered (g : Graph) (a : AliasSupply) : Prop where
  issued : ∀ {i name}, g.reserved? i = some name → ∃ k, k ≤ a.issued ∧ name = a.nth k
  distinct : ∀ {i j name}, g.reserved? i = some name → g.reserved? j = some name → i = j

namespace Numbered

variable {g g' : Graph} {a : AliasSupply} {n : Node}

theorem empty (a : AliasSupply) : Numbered .empty a :=
  ⟨(nomatch ·), (nomatch ·)⟩

theorem congr (hn : Numbered g a) (h : ∀ i, g'.reserved? i = g.reserved? i) : Numbered g' a where
  issued hi := hn.issued (h _ ▸ hi)
  distinct hi hj := hn.distinct (h _ ▸ hi) (h _ ▸ hj)

/-- A node that reserves nothing takes no alias. -/
theorem append_none (hn : Numbered g a) (h : g.AppendsTo g' n) (hname : n.reservedAlias = none) :
    Numbered g' a := by
  refine hn.congr fun i => ?_
  rw [Graph.reserved?, Graph.reserved?, h.node?]
  split
  · next hi => rw [hi, Graph.node?_eq_none_iff.2 (Nat.le_refl _)]; exact hname
  · rfl

/-- A node that reserves the next alias shares it with no node before it. -/
theorem append_next (hn : Numbered g a) (h : g.AppendsTo g' n)
    (hname : n.reservedAlias = some a.next) : Numbered g' a.advance := by
  have hcases : ∀ {i name}, g'.reserved? i = some name →
      (i = g.size ∧ name = a.nth (a.issued + 1)) ∨ (i ≠ g.size ∧ g.reserved? i = some name) := by
    intro i name hi
    rw [Graph.reserved?, h.node?] at hi
    split at hi
    · next hs =>
      rw [Option.bind_some, hname] at hi
      exact Or.inl ⟨hs, (Option.some.inj hi).symm⟩
    · next hs => exact Or.inr ⟨hs, hi⟩
  -- An older alias has a smaller number.
  have hold : ∀ {j name}, g.reserved? j = some name → name ≠ a.nth (a.issued + 1) := by
    intro j name hj heq
    obtain ⟨k, hk, rfl⟩ := hn.issued hj
    have := AliasSupply.nth_injective heq
    omega
  constructor
  · intro i name hi
    rcases hcases hi with ⟨-, rfl⟩ | ⟨-, hi⟩
    · exact ⟨a.issued + 1, Nat.le_refl _, rfl⟩
    · obtain ⟨k, hk, rfl⟩ := hn.issued hi
      exact ⟨k, Nat.le_succ_of_le hk, rfl⟩
  · intro i j name hi hj
    rcases hcases hi with ⟨rfl, rfl⟩ | ⟨-, hi⟩ <;> rcases hcases hj with ⟨rfl, hname'⟩ | ⟨-, hj⟩
    · rfl
    · exact absurd rfl (hold hj)
    · exact absurd hname' (hold hi)
    · exact hn.distinct hi hj

/-- A child reserves the next alias or none, as its kind says. -/
theorem append_reserved {kind : NodeKind} (hn : Numbered g a) (h : g.AppendsTo g' n)
    (hname : n.reservedAlias = Graph.reserved a kind) :
    Numbered g' (Graph.afterReserving a kind) := by
  unfold Graph.reserved at hname
  unfold Graph.afterReserving
  split
  · next hr => exact hn.append_next h (by rw [hname, if_pos hr])
  · next hr => exact hn.append_none h (by rw [hname, if_neg hr])

theorem setJoin (hn : Numbered g a) (k : Nat) (type : Join) : Numbered (g.setJoin k type) a := by
  refine hn.congr fun i => ?_
  rw [Graph.reserved?, Graph.reserved?, Graph.node?_setJoin]
  cases g.node? i with
  | none => rfl
  | some m => by_cases hk : k = i <;> simp [hk]

end Numbered

/-- What a node has reserved is never taken back nor changed. -/
theorem Graph.Extends.reserved?_eq {g g' : Graph} (h : g.Extends g') {i : Nat} (hi : i < g.size) :
    g'.reserved? i = g.reserved? i := by
  obtain ⟨n, hn⟩ := exists_node?_of_lt hi
  obtain ⟨j, hj, -⟩ := h.node hn
  simp [reserved?, hn, hj]

end PathQuery
