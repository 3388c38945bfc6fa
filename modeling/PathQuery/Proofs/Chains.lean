import Mathlib.Data.List.SplitBy
import PathQuery.Proofs.Capture
import PathQuery.Schema.Sample

/-!
# Chains of accesses

An access that is made on the node which the access before it has reached continues a chain. What is
pending are the ends of the chains that were made since the pending accesses were last used up, so
an operation that captures a node finds its access exactly if they are one chain, and that chain
ends at the node.

**Open accesses.** Beside the stage of a run goes the list of the accesses that are open: an access
that succeeds is put at its end, and an event that uses up what is pending clears it. The ends of
its maximal chains and the pending nodes are the same after every event (`pending_openAfter`),
though an access looks at the last pending node alone (`chainEnds_concat`).

Main statement: `run_capturesChains`.
-/

namespace PathQuery

/-! ## Chains -/

/-- Whether an access is continued by another one, which is made on what it has reached. -/
def Access.leadsTo (a b : Access) : Bool := a.reached == b.owner

/-- The nodes that the maximal chains of a list of accesses end at. -/
def chainEnds (as : List Access) : List Nat :=
  (as.splitBy Access.leadsTo).filterMap fun chain => chain.getLast?.map (·.reached)

/-- Whether accesses are one chain that ends at a node. -/
structure IsChainTo (as : List Access) (i : Nat) : Prop where
  linked : as.IsChain fun a b => a.reached = b.owner
  ends : as.getLast?.map (·.reached) = some i

section

variable {as : List Access} {a x : Access} {i : Nat} {cs : List (List Access)} {c : List Access}

theorem isChain_leadsTo_iff :
    (as.IsChain fun a b => a.leadsTo b = true) ↔ as.IsChain fun a b => a.reached = b.owner := by
  simp only [Access.leadsTo, beq_iff_eq]

/-- The last access is the last one of the last chain. -/
theorem exists_splitBy_concat (as : List Access) (x : Access) :
    ∃ cs c, (as ++ [x]).splitBy Access.leadsTo = cs ++ [c ++ [x]] := by
  have hne : (as ++ [x]).splitBy Access.leadsTo ≠ [] := by simp
  obtain ⟨cs, c, hcs⟩ := (List.eq_nil_or_concat' _).resolve_left hne
  obtain ⟨hflat, hnil, -⟩ := List.splitBy_eq_iff.1 hcs
  have hc : c ≠ [] := by
    intro hc
    simp [hc] at hnil
  obtain ⟨c, y, rfl⟩ := (List.eq_nil_or_concat' c).resolve_left hc
  have hxy : x = y := by
    have hlast := congrArg List.getLast? hflat
    simpa [← List.append_assoc] using hlast
  exact ⟨cs, c, by rw [hcs, hxy]⟩

/-- An access that continues nothing begins a chain. -/
theorem splitBy_concat_of_not (h : ∀ x ∈ as.getLast?, x.leadsTo a = false) :
    (as ++ [a]).splitBy Access.leadsTo = as.splitBy Access.leadsTo ++ [[a]] :=
  List.splitBy_append_cons [] h

/-- An access that continues the last one is put at the end of the last chain. -/
theorem splitBy_concat_of_leadsTo
    (hcs : (as ++ [x]).splitBy Access.leadsTo = cs ++ [c ++ [x]]) (h : x.leadsTo a = true) :
    (as ++ [x] ++ [a]).splitBy Access.leadsTo = cs ++ [c ++ [x] ++ [a]] := by
  obtain ⟨hflat, hnil, hchain, hapart⟩ := List.splitBy_eq_iff.1 hcs
  obtain ⟨hcs', -, hbetween⟩ := List.isChain_append.1 hapart
  rw [List.splitBy_eq_iff]
  refine ⟨by simp [hflat], by simpa using hnil, ?_, ?_⟩
  · intro m hm
    rcases List.mem_append.1 hm with hm | hm
    · exact hchain m (List.mem_append_left _ hm)
    · rw [List.mem_singleton.1 hm, List.isChain_append]
      refine ⟨hchain _ (by simp), List.isChain_singleton a, ?_⟩
      simpa using h
  · rw [List.isChain_append]
    refine ⟨hcs', List.isChain_singleton _, ?_⟩
    intro y hy z hz
    cases hz
    obtain ⟨hny, hnc, hr⟩ := hbetween y hy _ rfl
    refine ⟨hny, by simp, ?_⟩
    rwa [List.head_append_of_ne_nil hnc]

theorem chainEnds_of_splitBy (h : as.splitBy Access.leadsTo = cs ++ [c ++ [x]]) :
    chainEnds as = cs.filterMap (fun chain => chain.getLast?.map (·.reached)) ++ [x.reached] := by
  rw [chainEnds, h]
  simp

/-- **The ends of chains are what is recorded**, though a record looks at the last of them alone. -/
theorem chainEnds_concat (as : List Access) (a : Access) :
    chainEnds (as ++ [a]) = ((Pending.mk (chainEnds as)).record a.owner a.reached).nodes := by
  rcases List.eq_nil_or_concat' as with rfl | ⟨as, x, rfl⟩
  · rfl
  obtain ⟨cs, c, hcs⟩ := exists_splitBy_concat as x
  rw [chainEnds_of_splitBy hcs]
  by_cases h : x.reached = a.owner
  · have hlead : x.leadsTo a = true := by rw [Access.leadsTo, h, beq_self_eq_true]
    rw [chainEnds_of_splitBy (splitBy_concat_of_leadsTo hcs hlead), h, Pending.record_continued]
  · have hnot : ∀ y ∈ (as ++ [x]).getLast?, y.leadsTo a = false := by
      intro y hy
      rw [List.getLast?_concat] at hy
      cases hy
      exact beq_false_of_ne h
    rw [Pending.record, if_neg (by simpa using h), chainEnds, splitBy_concat_of_not hnot, hcs]
    simp

/-- There is one end exactly if there is one chain. -/
theorem chainEnds_eq_singleton_iff : chainEnds as = [i] ↔ IsChainTo as i := by
  constructor
  · intro h
    rcases List.eq_nil_or_concat' as with rfl | ⟨as, x, rfl⟩
    · cases h
    obtain ⟨cs, c, hcs⟩ := exists_splitBy_concat as x
    obtain ⟨hflat, hnil, hchain, -⟩ := List.splitBy_eq_iff.1 hcs
    rw [chainEnds_of_splitBy hcs] at h
    obtain ⟨hends, hx⟩ := List.append_eq_singleton_iff.1 h |>.resolve_right (by simp)
    -- No chain is without an end, so there is none before the last one.
    have hnone : cs = [] := by
      rw [List.eq_nil_iff_forall_not_mem]
      intro d hd
      have hlast := List.filterMap_eq_nil_iff.1 hends d hd
      rw [Option.map_eq_none_iff, List.getLast?_eq_none_iff] at hlast
      exact hnil (List.mem_append_left _ (hlast ▸ hd))
    rw [hnone] at hflat
    have hone : as ++ [x] = c ++ [x] := by simpa using hflat
    refine ⟨?_, ?_⟩
    · rw [hone]
      exact isChain_leadsTo_iff.1 (hchain _ (by simp))
    · rw [List.getLast?_concat]
      exact congrArg some (List.singleton_inj.1 hx)
  · intro h
    obtain ⟨x, hx, rfl⟩ := Option.map_eq_some_iff.1 h.ends
    have hne : as ≠ [] := by
      intro hnil
      rw [hnil] at hx
      cases hx
    rw [chainEnds, List.splitBy_of_isChain hne (isChain_leadsTo_iff.2 h.linked)]
    simp [hx]

end

namespace Stage

variable {s : Stage} {as : List Access}

/-! ## Open accesses -/

/-- The accesses that are open after an event: none if it uses up what is pending, and otherwise
those that were, with the one that the event makes. -/
def openAfter (s : Stage) (as : List Access) (e : Event) : List Access :=
  if s.empties e then [] else as ++ (s.access? e).toList

/-- The accesses that a run has made since what was pending was last used up, after those that were
open at its start. -/
def openAccesses : Stage → List Access → List Event → List Access
  | _, as, [] => as
  | s, as, e :: es => openAccesses (s.step e) (s.openAfter as e) es

theorem openAccesses_append (s : Stage) (as : List Access) (es fs : List Event) :
    s.openAccesses as (es ++ fs) = (s.run es).openAccesses (s.openAccesses as es) fs := by
  induction es generalizing s as with
  | nil => rfl
  | cons e es ih => exact ih (s.step e) (s.openAfter as e)

/-- A run without an event that uses up what is pending adds the accesses that it makes. -/
theorem openAccesses_of_spared {es : List Event}
    (h : ∀ front e back, es = front ++ e :: back → (s.run front).empties e = false) :
    s.openAccesses as es = as ++ s.accesses es := by
  induction es generalizing s as with
  | nil => exact (List.append_nil as).symm
  | cons e es ih =>
    have hfirst : s.empties e = false := h [] e es rfl
    have hrest : ∀ front e' back, es = front ++ e' :: back →
        ((s.step e).run front).empties e' = false := by
      intro front e' back heq
      exact h (e :: front) e' back (by rw [heq, List.cons_append])
    rw [openAccesses, ih hrest, openAfter, hfirst, if_neg Bool.false_ne_true, List.append_assoc,
      accesses]

/-- Whether a run has done nothing, or its last event has used up what was pending. -/
def IsCleared (s : Stage) (es : List Event) : Prop :=
  es = [] ∨ ∃ front e, es = front ++ [e] ∧ (s.run front).empties e = true

theorem IsCleared.openAccesses_eq {es : List Event} (h : s.IsCleared es) :
    s.openAccesses [] es = [] := by
  rcases h with rfl | ⟨front, e, rfl, hempties⟩
  · rfl
  · rw [openAccesses_append, openAccesses, openAfter, if_pos hempties, openAccesses]

/-! ## Runs -/

/-- After an event the ends of chains are pending if they were before. -/
theorem pending_openAfter (h : s.query.pending.nodes = chainEnds as) (e : Event) :
    (s.step e).query.pending.nodes = chainEnds (s.openAfter as e) := by
  unfold openAfter
  by_cases hempties : s.empties e = true
  · rw [if_pos hempties, pending_of_empties hempties]
    rfl
  · rw [if_neg hempties]
    cases ha : s.access? e with
    | none =>
      rw [pending_of_spared (by simpa using hempties) ha, h]
      simp
    | some a =>
      rw [pending_of_access ha, Option.toList_some, chainEnds_concat, ← h]

/-- And so they are after every run. -/
theorem pending_openAccesses (h : s.query.pending.nodes = chainEnds as) (es : List Event) :
    (s.run es).query.pending.nodes = chainEnds (s.openAccesses as es) := by
  induction es generalizing s as with
  | nil => exact h
  | cons e es ih => exact ih (pending_openAfter h e)

/-- What is captured after a run. -/
structure CapturesChains (s : Stage) (es : List Event) : Prop where
  /-- The open accesses are those that were made since what was pending was last used up. -/
  since : ∀ before after, es = before ++ after → s.IsCleared before →
    (∀ front e back, after = front ++ e :: back → (s.run (before ++ front)).empties e = false) →
    s.openAccesses [] es = (s.run before).accesses after
  /-- The ends of the maximal chains of open accesses are pending, oldest first. -/
  pending : (s.run es).query.pending.nodes = chainEnds (s.openAccesses [] es)
  /-- A node of the query that is no root is captured exactly if the open accesses are one chain
  that ends at the node, and the current scope sees the node. -/
  captures : ∀ operation p i, (s.run es).query.graph.kind? p.node = some p.kind → p.kind ≠ .root →
    ((Query.capture operation p (s.run es).query).1 = .ok i ↔
      i = p.node ∧ IsChainTo (s.openAccesses [] es) p.node ∧ (s.run es).query.Sees p.node)
  /-- Nothing is pending after that, whether the capture has succeeded or not. -/
  emptied : ∀ operation p, (s.run es).query.graph.kind? p.node = some p.kind → p.kind ≠ .root →
    (Query.capture operation p (s.run es).query).2 = { (s.run es).query with pending := .none }
  /-- An event that captures a node performs an operation on the query that begins with the capture
  and then leaves the pending accesses alone. -/
  begins : ∀ e operation p, (s.run es).captured? e = some (operation, p) →
    ∃ x k, (s.run es).operation? e = some x ∧
      ((s.run es).step e).query = (x (s.run es).query).2 ∧
      x (s.run es).query = (Query.capture operation p >>= k) (s.run es).query ∧
      ∀ i, (k i).Spares

/-- **A capture accepts one finished chain of accesses.** -/
theorem run_capturesChains (schema : Registry) (settings : Settings) (es : List Event) :
    (start schema settings).CapturesChains es where
  since before after heq hcleared hspared := by
    have hafter : ∀ front e back, after = front ++ e :: back →
        (((start schema settings).run before).run front).empties e = false := by
      intro front e back hback
      rw [← run_append]
      exact hspared front e back hback
    rw [heq, openAccesses_append, hcleared.openAccesses_eq, openAccesses_of_spared hafter,
      List.nil_append]
  pending := pending_openAccesses rfl es
  captures operation p i hk hp := by
    have hpending : ((start schema settings).run es).query.pending.nodes =
        chainEnds ((start schema settings).openAccesses [] es) := pending_openAccesses rfl es
    rw [Query.capture_eq_ok_iff hk hp, hpending, chainEnds_eq_singleton_iff]
  emptied operation p hk hp := by
    rw [Query.capture_snd, Query.taking, if_neg]
    simp [hk, hp]
  begins e operation p h := by
    obtain ⟨x, hx, k, hk, heq⟩ := captures_operation h
    exact ⟨x, k, hx, query_step_operation hx, heq, hk⟩

/-- An access that continues another one than the last begins a chain of its own. -/
example :
    let es := [.call (.addFrom "Person"), .call (.access ⟨0, .root⟩ "town"),
      .call (.access ⟨0, .root⟩ "cars"), .call (.access ⟨1, .entity⟩ "name")]
    let s := start Sample.registry .default
    (s.run es).query.pending.nodes = [1, 2, 3] ∧ chainEnds (s.openAccesses [] es) = [1, 2, 3] := by
  decide +kernel

end Stage

end PathQuery
