import Mathlib.Data.List.Forall2
import Mathlib.Data.List.Nodup
import PathQuery.Parameter
import PathQuery.Proofs.Numbering

/-!
# Names of parameters

Under the named style a parameter goes by its user's name or by a generated one. A generated name
is neither reserved nor in the list, and bound names are reserved, so no two entries of a list have
the same name and none that was generated is the name of a binding (`Named`).

Main statement: `Named.pushAll`.
-/

namespace PathQuery

namespace ParameterList

theorem generated_injective {n m : Nat} (h : generated n = generated m) : n = m :=
  append_toString_injective h

theorem le_freeNumber (taken : List String) (fuel n : Nat) : n ≤ freeNumber taken fuel n := by
  induction fuel generalizing n with
  | zero => exact Nat.le_refl n
  | succ fuel ih =>
    rw [freeNumber]
    split
    · exact Nat.le_trans (Nat.le_succ n) (ih (n + 1))
    · exact Nat.le_refl n

/-- The numbers that the search skips have names that are taken. -/
theorem mem_of_lt_freeNumber {taken : List String} {fuel n k : Nat} (hn : n ≤ k)
    (hk : k < freeNumber taken fuel n) : generated k ∈ taken := by
  induction fuel generalizing n with
  | zero => exact absurd hk (Nat.not_lt.2 hn)
  | succ fuel ih =>
    rw [freeNumber] at hk
    split at hk
    · next hmem =>
      rcases Nat.eq_or_lt_of_le hn with rfl | hlt
      · simpa using hmem
      · exact ih hlt hk
    · exact absurd hk (Nat.not_lt.2 hn)

/-- If the search ends at a taken name, so are all the candidates. -/
theorem forall_mem_of_freeNumber_mem {taken : List String} {fuel n : Nat}
    (h : generated (freeNumber taken fuel n) ∈ taken) :
    ∀ k, k ≤ fuel → generated (n + k) ∈ taken := by
  induction fuel generalizing n with
  | zero =>
    intro k hk
    obtain rfl : k = 0 := Nat.le_zero.1 hk
    exact h
  | succ fuel ih =>
    rw [freeNumber] at h
    split at h
    · next hn =>
      intro k hk
      cases k with
      | zero => simpa using hn
      | succ k =>
        have := ih h k (Nat.le_of_succ_le_succ hk)
        rwa [Nat.add_assoc, Nat.add_comm 1 k] at this
    · next hn => exact absurd h (by simpa using hn)

/-- Among one candidate more than there are taken names one is free. -/
theorem generated_freshNumber_not_mem (l : ParameterList) : generated l.freshNumber ∉ l.taken := by
  intro h
  have hall := forall_mem_of_freeNumber_mem h
  have hnodup :
      ((List.range (l.taken.length + 1)).map fun k => generated (l.nextNumber + k)).Nodup := by
    refine List.nodup_range.map fun i j hij => ?_
    exact Nat.add_left_cancel (generated_injective hij)
  have hsub : (List.range (l.taken.length + 1)).map (fun k => generated (l.nextNumber + k)) ⊆
      l.taken := by
    intro name hname
    obtain ⟨k, hk, rfl⟩ := List.mem_map.1 hname
    exact hall k (Nat.le_of_lt_succ (List.mem_range.1 hk))
  have hle := hnodup.length_le_of_subset hsub
  rw [List.length_map, List.length_range] at hle
  exact absurd hle (Nat.not_succ_le_self _)

/-! ## Binding one value after the other -/

/-- The name that the next value is bound under. -/
def nameFor (l : ParameterList) (name : Option String) : String :=
  name.getD (generated l.freshNumber)

/-- The list after the values of some slots, each with its user's name if it has one. -/
def pushAll (l : ParameterList) (slots : List (Option String × Value)) : ParameterList :=
  slots.foldl (fun l s => (l.push s.1 s.2).2) l

/-- The placeholders of some slots. -/
def marks (l : ParameterList) : List (Option String × Value) → List String
  | [] => []
  | s :: rest => (l.push s.1 s.2).1 :: marks (l.push s.1 s.2).2 rest

/-- The names that some slots are bound under. -/
def names (l : ParameterList) : List (Option String × Value) → List String
  | [] => []
  | s :: rest => l.nameFor s.1 :: names (l.push s.1 s.2).2 rest

variable {l : ParameterList} {name : Option String} {v : Value}
  {slots : List (Option String × Value)}

@[simp] theorem pushAll_nil (l : ParameterList) : l.pushAll [] = l := rfl

@[simp] theorem pushAll_cons (l : ParameterList) (s : Option String × Value) :
    l.pushAll (s :: slots) = (l.push s.1 s.2).2.pushAll slots := rfl

theorem push_fst (l : ParameterList) (name : Option String) (v : Value) :
    (l.push name v).1 = placeholder l.style (l.size + 1) (l.nameFor name) := by
  cases name with
  | none => rfl
  | some n =>
    rw [push, pushNamed]
    split <;> rfl

/-- A value is bound again only if its user's name is bound under the named style. -/
theorem push_snd (l : ParameterList) (name : Option String) (v : Value) :
    ((l.push name v).2 = l ∧ l.style = .named ∧ ∃ n, name = some n ∧ l.isBound n = true) ∨
      ((l.push name v).2.entries = l.entries ++ [(⟨l.nameFor name, v⟩, name.isSome)] ∧
        (l.push name v).2.style = l.style ∧ (l.push name v).2.reserved = l.reserved ∧
        ∀ n, name = some n → l.style = .named → l.isBound n = false) := by
  cases name with
  | none => exact Or.inr ⟨rfl, rfl, rfl, fun n hn => nomatch hn⟩
  | some n =>
    rw [push, pushNamed]
    split
    · next h =>
      rw [Bool.and_eq_true, beq_iff_eq] at h
      exact Or.inl ⟨rfl, h.1, n, rfl, h.2⟩
    · next h =>
      refine Or.inr ⟨rfl, rfl, rfl, ?_⟩
      rintro _ ⟨⟩ hs
      simpa [hs] using h

theorem reserved_push (l : ParameterList) (name : Option String) (v : Value) :
    (l.push name v).2.reserved = l.reserved := by
  rcases push_snd l name v with ⟨heq, -⟩ | ⟨-, -, hres, -⟩
  · rw [heq]
  · exact hres

theorem length_names (l : ParameterList) (slots : List (Option String × Value)) :
    (l.names slots).length = slots.length := by
  induction slots generalizing l with
  | nil => rfl
  | cons s rest ih => rw [names, List.length_cons, ih, List.length_cons]

/-! ## Styles without names -/

/-- Without names every value is bound, and placeholders tell positions only. -/
theorem push_of_ne_named (h : l.style ≠ .named) (name : Option String) (v : Value) :
    (l.push name v).2.parameters.map (·.value) = l.parameters.map (·.value) ++ [v] ∧
      (l.push name v).2.size = l.size + 1 ∧ (l.push name v).2.style = l.style := by
  rcases push_snd l name v with ⟨-, hs, -⟩ | ⟨he, hs, -, -⟩
  · exact absurd hs h
  · rw [parameters, size, he]
    simp [parameters, size, hs]

theorem values_pushAll (h : l.style ≠ .named) (slots : List (Option String × Value)) :
    (l.pushAll slots).parameters.map (·.value) =
      l.parameters.map (·.value) ++ slots.map (·.2) := by
  induction slots generalizing l with
  | nil => simp
  | cons s rest ih =>
    obtain ⟨hv, -, hs⟩ := push_of_ne_named h s.1 s.2
    rw [pushAll_cons, ih (hs ▸ h), hv]
    simp

theorem marks_of_ne_named (h : l.style ≠ .named) (slots : List (Option String × Value)) :
    l.marks slots =
      (List.range slots.length).map fun k => placeholder l.style (l.size + k + 1) "" := by
  induction slots generalizing l with
  | nil => rfl
  | cons s rest ih =>
    obtain ⟨-, hsize, hs⟩ := push_of_ne_named h s.1 s.2
    have hname : ∀ n name, placeholder l.style n name = placeholder l.style n "" := by
      intro n name
      cases hl : l.style with
      | named => exact absurd hl h
      | positional | numbered => rfl
    rw [marks, push_fst, ih (hs ▸ h), hs, hsize, List.length_cons, List.range_succ_eq_map,
      List.map_cons, List.map_map, hname]
    congr 1
    refine List.map_congr_left fun k _ => ?_
    simp only [Function.comp, Nat.succ_eq_add_one]
    congr 1
    omega

/-! ## The named style -/

/-- The names in the list. -/
def bound (l : ParameterList) : List String := l.parameters.map (·.name)

/-- Under the named style, a list whose names differ and whose users' names are bound to the values
of the bindings. -/
structure Named (b : Bindings) (l : ParameterList) : Prop where
  style : l.style = .named
  reserved : l.reserved = b.names
  users : ∀ {p}, (p, true) ∈ l.entries → b.get? p.name = some p.value
  generated : ∀ {p}, (p, false) ∈ l.entries → p.name ∉ b.names
  nodup : l.bound.Nodup

/-- Whether the slots of users' names hold the values of the bindings. -/
def Follow (b : Bindings) (slots : List (Option String × Value)) : Prop :=
  ∀ s ∈ slots, ∀ n, s.1 = some n → b.get? n = some s.2

variable {b : Bindings}

theorem mem_names_of_get? {n : String} (h : b.get? n = some v) : n ∈ b.names := by
  induction b with
  | nil => cases h
  | cons p rest ih =>
    rw [Bindings.get?, List.lookup_cons] at h
    split at h
    · next heq =>
      rw [beq_iff_eq.1 heq]
      exact List.mem_cons_self
    · exact List.mem_cons_of_mem _ (ih h)

namespace Named

theorem empty (b : Bindings) : Named b (.empty .named b.names) :=
  ⟨rfl, rfl, fun h => (nomatch h), fun h => (nomatch h), List.nodup_nil⟩

/-- A user's name is in the list only as such. -/
theorem mem_bound_iff (h : Named b l) {n : String} (hn : b.get? n = some v) :
    n ∈ l.bound ↔ l.isBound n = true := by
  rw [isBound, List.any_eq_true]
  constructor
  · intro hmem
    obtain ⟨p, hp, rfl⟩ := List.mem_map.1 hmem
    obtain ⟨⟨q, user⟩, he, rfl⟩ := List.mem_map.1 hp
    cases user with
    | true => exact ⟨(q, true), he, by simp⟩
    | false => exact absurd (mem_names_of_get? hn) (h.generated he)
  · rintro ⟨⟨q, user⟩, he, hq⟩
    rw [Bool.and_eq_true, beq_iff_eq] at hq
    exact List.mem_map.2 ⟨q, List.mem_map.2 ⟨_, he, rfl⟩, hq.2⟩

/-- A generated name is neither in the list nor bound. -/
theorem fresh (h : Named b l) :
    l.nameFor none ∉ b.names ∧ l.nameFor none ∉ l.bound := by
  have hfree := l.generated_freshNumber_not_mem
  rw [taken, h.reserved, List.mem_append, not_or] at hfree
  exact hfree

/-- A user's name that is in the list has the value that is bound to it. -/
theorem mem_of_isBound (h : Named b l) {n : String} (hn : b.get? n = some v)
    (hb : l.isBound n = true) : ⟨n, v⟩ ∈ l.parameters := by
  rw [isBound, List.any_eq_true] at hb
  obtain ⟨⟨q, user⟩, hq, hname⟩ := hb
  rw [Bool.and_eq_true, beq_iff_eq] at hname
  obtain ⟨rfl, rfl⟩ : user = true ∧ q.name = n := hname
  have hv : q.value = v := Option.some.inj ((h.users hq).symm.trans hn)
  rw [← hv]
  exact List.mem_map_of_mem hq

/-- A name that is bound anew is not in the list. -/
theorem nameFor_not_mem (h : Named b l) (hs : ∀ n, name = some n → b.get? n = some v)
    (hnew : ∀ n, name = some n → l.style = .named → l.isBound n = false) :
    l.nameFor name ∉ l.bound := by
  cases name with
  | none => exact h.fresh.2
  | some n =>
    intro hmem
    have hb := (h.mem_bound_iff (hs n rfl)).1 hmem
    rw [hnew n rfl h.style] at hb
    cases hb

theorem append (h : Named b l) (hs : ∀ n, name = some n → b.get? n = some v)
    (hnot : l.nameFor name ∉ l.bound) {l' : ParameterList} (hstyle : l'.style = l.style)
    (hres : l'.reserved = l.reserved)
    (he : l'.entries = l.entries ++ [(⟨l.nameFor name, v⟩, name.isSome)])
    (hbound : l'.bound = l.bound ++ [l.nameFor name]) : Named b l' where
  style := hstyle.trans h.style
  reserved := hres.trans h.reserved
  users {p} hp := by
    rw [he, List.mem_append, List.mem_singleton] at hp
    rcases hp with hp | hp
    · exact h.users hp
    · cases name with
      | none => cases hp
      | some n => cases hp; exact hs n rfl
  generated {p} hp := by
    rw [he, List.mem_append, List.mem_singleton] at hp
    rcases hp with hp | hp
    · exact h.generated hp
    · cases name with
      | none => cases hp; exact h.fresh.1
      | some n => cases hp
  nodup := by
    rw [hbound, List.nodup_append]
    refine ⟨h.nodup, List.nodup_singleton _, ?_⟩
    intro x hx y hy hxy
    rw [hxy, List.mem_singleton.1 hy] at hx
    exact hnot hx

/-- Binding a value adds an entry under its name, unless the name is in the list already. In both
cases the entry of that name has the value. -/
theorem push (h : Named b l) (hs : ∀ n, name = some n → b.get? n = some v) :
    Named b (l.push name v).2 ∧
      (l.push name v).2.bound =
        l.bound ++ (if l.nameFor name ∈ l.bound then [] else [l.nameFor name]) ∧
      l.parameters ⊆ (l.push name v).2.parameters ∧
      ⟨l.nameFor name, v⟩ ∈ (l.push name v).2.parameters := by
  rcases push_snd l name v with ⟨heq, -, n, rfl, hb⟩ | ⟨he, hstyle, hres, hnew⟩
  · have hget := hs n rfl
    have hmem : n ∈ l.bound := (h.mem_bound_iff hget).2 hb
    rw [heq]
    exact ⟨h, by simp [nameFor, hmem], List.Subset.refl _, h.mem_of_isBound hget hb⟩
  · have hnot := h.nameFor_not_mem hs hnew
    have hparams : (l.push name v).2.parameters = l.parameters ++ [⟨l.nameFor name, v⟩] := by
      rw [parameters, he, List.map_append]
      rfl
    have hbound : (l.push name v).2.bound = l.bound ++ [l.nameFor name] := by
      rw [bound, hparams, List.map_append]
      rfl
    refine ⟨h.append hs hnot hstyle hres he hbound, ?_, ?_, ?_⟩
    · rw [hbound, if_neg hnot]
    · rw [hparams]
      exact List.subset_append_left _ _
    · rw [hparams]
      exact List.mem_append_right _ List.mem_cons_self

/-! ### Many values -/

theorem pushAll (h : Named b l) (hs : Follow b slots) : Named b (l.pushAll slots) := by
  induction slots generalizing l with
  | nil => exact h
  | cons s rest ih =>
    rw [Follow, List.forall_mem_cons] at hs
    exact ih (h.push hs.1).1 hs.2

/-- The names in the list are those of the slots, each where it is met first. -/
theorem bound_pushAll (h : Named b l) (hs : Follow b slots) : (l.pushAll slots).bound =
    l.bound ++ ((l.names slots).filter fun x => !l.bound.contains x).eraseDups := by
  induction slots generalizing l with
  | nil => simp [names]
  | cons s rest ih =>
    rw [Follow, List.forall_mem_cons] at hs
    obtain ⟨hnext, hbound, -, -⟩ := h.push hs.1
    rw [pushAll_cons, ih hnext hs.2, hbound, names]
    by_cases hx : l.nameFor s.1 ∈ l.bound
    · simp [hx]
    · rw [if_neg hx, List.filter_cons_of_pos (by simpa using hx), List.eraseDups_cons,
        List.filter_filter, List.append_assoc, List.singleton_append]
      congr 3
      refine List.filter_congr fun x _ => ?_
      by_cases hn : x = l.nameFor s.1 <;> simp [hn]

/-- What is in the list stays, and the entry of each slot has its value. -/
theorem mem_pushAll (h : Named b l) (hs : Follow b slots) :
    l.parameters ⊆ (l.pushAll slots).parameters ∧
      List.Forall₂ (fun x s => ⟨x, s.2⟩ ∈ (l.pushAll slots).parameters) (l.names slots) slots := by
  induction slots generalizing l with
  | nil => exact ⟨List.Subset.refl _, .nil⟩
  | cons s rest ih =>
    rw [Follow, List.forall_mem_cons] at hs
    obtain ⟨hnext, -, hsub, hmem⟩ := h.push hs.1
    obtain ⟨hkeep, hall⟩ := ih hnext hs.2
    exact ⟨List.Subset.trans hsub hkeep, .cons (hkeep hmem) hall⟩

/-- A name that is not bound was generated, for one slot only. -/
theorem count_names (h : Named b l) (hs : Follow b slots) {x : String} (hx : x ∈ l.names slots)
    (hb : x ∉ b.names) : x ∉ l.bound ∧ (l.names slots).count x = 1 := by
  induction slots generalizing l with
  | nil => cases hx
  | cons s rest ih =>
    rw [Follow, List.forall_mem_cons] at hs
    obtain ⟨hnext, hbound, -, -⟩ := h.push hs.1
    rw [names] at hx ⊢
    by_cases heq : x = l.nameFor s.1
    · have hfresh : x ∉ l.bound := by
        cases hname : s.1 with
        | none =>
          rw [heq, hname]
          exact h.fresh.2
        | some n =>
          rw [heq, hname] at hb
          exact absurd (mem_names_of_get? (hs.1 n hname)) hb
      have hlater : x ∉ (l.push s.1 s.2).2.names rest := by
        intro hmem
        refine (ih hnext hs.2 hmem).1 ?_
        rw [hbound, ← heq, if_neg hfresh]
        exact List.mem_append_right _ List.mem_cons_self
      rw [← heq, List.count_cons_self, List.count_eq_zero.2 hlater]
      exact ⟨hfresh, rfl⟩
    · have hrest := ih hnext hs.2 ((List.mem_cons.1 hx).resolve_left heq)
      rw [List.count_cons_of_ne (Ne.symm heq)]
      refine ⟨fun hmem => hrest.1 ?_, hrest.2⟩
      rw [hbound]
      exact List.mem_append_left _ hmem

/-- A slot with a user's name is bound under that, and any other slot under a name that is no name
of a binding and stands for no other slot. -/
theorem names_cases (h : Named b l) (hs : Follow b slots) :
    List.Forall₂ (fun x s => s.1 = some x ∧ b.get? x = some s.2 ∨
      s.1 = none ∧ x ∉ b.names ∧ (l.names slots).count x = 1) (l.names slots) slots := by
  have hcases : List.Forall₂ (fun x s => s.1 = some x ∧ b.get? x = some s.2 ∨
      s.1 = none ∧ x ∉ b.names) (l.names slots) slots := by
    induction slots generalizing l with
    | nil => exact .nil
    | cons s rest ih =>
      rw [Follow, List.forall_mem_cons] at hs
      refine .cons ?_ (ih (h.push hs.1).1 hs.2)
      cases hname : s.1 with
      | none => exact Or.inr ⟨rfl, h.fresh.1⟩
      | some n => exact Or.inl ⟨rfl, hs.1 n hname⟩
  rw [List.forall₂_iff_zip] at hcases ⊢
  refine ⟨hcases.1, fun {x s} hxs => (hcases.2 hxs).imp_right fun ⟨hnone, hb⟩ => ?_⟩
  exact ⟨hnone, hb, (h.count_names hs (List.of_mem_zip hxs).1 hb).2⟩

/-- A parameter is the only one of its name. -/
theorem filter_eq (h : Named b l) {p : Parameter} (hp : p ∈ l.parameters) :
    l.parameters.filter (·.name == p.name) = [p] := by
  have hnodup := h.nodup
  rw [bound] at hnodup
  generalize l.parameters = ps at hp hnodup
  induction ps with
  | nil => cases hp
  | cons q rest ih =>
    rw [List.map_cons, List.nodup_cons] at hnodup
    rcases List.mem_cons.1 hp with rfl | hrest
    · have hnone : rest.filter (·.name == p.name) = [] := by
        refine List.filter_eq_nil_iff.2 fun r hr heq => hnodup.1 ?_
        exact List.mem_map.2 ⟨r, hr, beq_iff_eq.1 heq⟩
      rw [List.filter_cons, if_pos (beq_self_eq_true _), hnone]
    · have hne : ¬ (q.name == p.name) = true := fun heq =>
        hnodup.1 (List.mem_map.2 ⟨p, hrest, (beq_iff_eq.1 heq).symm⟩)
      rw [List.filter_cons, if_neg hne, ih hrest hnodup.2]

theorem marks_eq (h : Named b l) (hs : Follow b slots) :
    l.marks slots = (l.names slots).map (":" ++ ·) := by
  induction slots generalizing l with
  | nil => rfl
  | cons s rest ih =>
    rw [Follow, List.forall_mem_cons] at hs
    rw [marks, names, List.map_cons, push_fst, h.style, ih (h.push hs.1).1 hs.2]
    rfl

end Named

/-- In every style the list has the value of each slot. -/
theorem value_mem_pushAll {b : Bindings} (style : ParameterStyle) (hs : Follow b slots)
    {slot : Option String × Value} (h : slot ∈ slots) :
    slot.2 ∈ ((empty style b.names).pushAll slots).parameters.map (·.value) := by
  by_cases hstyle : style = .named
  · subst hstyle
    obtain ⟨k, hk, rfl⟩ := List.getElem_of_mem h
    have hall := ((Named.empty b).mem_pushAll hs).2
    exact List.mem_map_of_mem (hall.get (by rwa [length_names]) hk)
  · rw [values_pushAll hstyle]
    exact List.mem_append_right _ (List.mem_map_of_mem h)

end ParameterList

end PathQuery
