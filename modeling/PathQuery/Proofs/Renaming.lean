import Mathlib.Data.Set.Function
import PathQuery.Proofs.Agreement

/-!
# Other reserved names

A binding that the text does not ask for still reserves its name, and a generated name may then come
out as another one. Everything else stays.

**Without names.** Placeholders tell positions only, so the text is the same, and so are the values
of the parameters.

**Under the named style.** Two lists of parameters that are filled from the same slots stay the same
up to a renaming that keeps every bound name (`Renamed`). A user's name is bound, so it is kept. A
generated name is new in both lists, so the renaming can be extended by it (`Renamed.push`).

Main statements: `compile_rebind_of_ne_named` and `compile_rebind_named`.
-/

namespace PathQuery

/-- The parameter under the name that a renaming gives it. -/
def Parameter.rename (ρ : String → String) (p : Parameter) : Parameter := ⟨ρ p.name, p.value⟩

namespace ParameterList

variable {b b' : Bindings} {l l' : ParameterList} {name : Option String} {v : Value}
  {slots : List (Option String × Value)} {ρ : String → String}

/-! ## Lists up to a renaming -/

/-- Whether one list of parameters is another one up to a renaming that keeps the bound names. -/
structure Renamed (b : Bindings) (ρ : String → String) (l l' : ParameterList) : Prop where
  entries : l'.entries = l.entries.map fun e => (e.1.rename ρ, e.2)
  injective : Set.InjOn ρ {x | x ∈ l.bound}
  users : ∀ x ∈ b.names, ρ x = x

namespace Renamed

theorem parameters (h : Renamed b ρ l l') : l'.parameters = l.parameters.map (·.rename ρ) := by
  simp [ParameterList.parameters, h.entries]

theorem bound (h : Renamed b ρ l l') : l'.bound = l.bound.map ρ := by
  simp [ParameterList.bound, h.parameters, Parameter.rename]

theorem isBound (h : Renamed b ρ l l') (hl : Named b l) (n : String) :
    l'.isBound n = l.isBound n := by
  have huser : ∀ e ∈ l.entries, (e.2 && ρ e.1.name == n) = (e.2 && e.1.name == n) := by
    rintro ⟨p, user⟩ he
    cases user with
    | false => rfl
    | true => rw [h.users _ (mem_names_of_get? (hl.users he))]
  rw [ParameterList.isBound, ParameterList.isBound, h.entries, List.any_map, Bool.eq_iff_iff,
    List.any_eq_true, List.any_eq_true]
  refine exists_congr fun e => and_congr_right fun he => ?_
  rw [← huser e he]
  rfl

/-- A renaming may be changed where no name of the list is. -/
theorem congr (h : Renamed b ρ l l') {σ : String → String} (hσ : ∀ x ∈ l.bound, σ x = ρ x)
    (husers : ∀ x ∈ b.names, σ x = x) : Renamed b σ l l' where
  entries := by
    rw [h.entries]
    refine List.map_congr_left fun e he => ?_
    have hmem : e.1.name ∈ l.bound := List.mem_map_of_mem (List.mem_map_of_mem he)
    rw [Parameter.rename, Parameter.rename, hσ _ hmem]
  injective := h.injective.congr fun x hx => (hσ x hx).symm
  users := husers

/-- Lists that are the same up to a renaming stay so when both bind a value under a new name. -/
theorem append (h : Renamed b ρ l l') {m m' : ParameterList} {x : String} {user : Bool}
    (hm : m.entries = l.entries ++ [(⟨x, v⟩, user)])
    (hm' : m'.entries = l'.entries ++ [(⟨ρ x, v⟩, user)]) (hnew : ρ x ∉ l'.bound) :
    Renamed b ρ m m' where
  entries := by
    rw [hm', h.entries, hm, List.map_append]
    rfl
  injective := by
    have hbound : ∀ y, y ∈ m.bound ↔ y ∈ l.bound ∨ y = x := fun y => by
      simp [ParameterList.bound, ParameterList.parameters, hm]
    have hne : ∀ y ∈ l.bound, ρ y ≠ ρ x := fun y hy heq =>
      hnew (h.bound ▸ heq ▸ List.mem_map_of_mem hy)
    intro y hy z hz heq
    rcases (hbound y).1 hy with hyl | rfl <;> rcases (hbound z).1 hz with hzl | rfl
    · exact h.injective hyl hzl heq
    · exact absurd heq (hne y hyl)
    · exact absurd heq.symm (hne z hzl)
    · rfl
  users := h.users

/-- Binding a value extends the renaming by the name that it is bound under. -/
theorem push (h : Renamed b ρ l l') (hl : Named b l) (hl' : Named b' l')
    (hs : ∀ n, name = some n → b.get? n = some v)
    (hs' : ∀ n, name = some n → b'.get? n = some v) :
    ∃ σ, (∀ x ∈ l.bound, σ x = ρ x) ∧ l'.nameFor name = σ (l.nameFor name) ∧
      Renamed b σ (l.push name v).2 (l'.push name v).2 := by
  cases name with
  | none =>
    -- Both names are new, so one can be renamed to the other.
    let σ := Function.update ρ (l.nameFor none) (l'.nameFor none)
    have hx : σ (l.nameFor none) = l'.nameFor none := Function.update_self ..
    have hkeep : ∀ x, x ≠ l.nameFor none → σ x = ρ x := fun x hx => Function.update_of_ne hx ..
    have hσ : ∀ x ∈ l.bound, σ x = ρ x := fun x hmem =>
      hkeep x fun heq => hl.fresh.2 (heq ▸ hmem)
    have husers : ∀ x ∈ b.names, σ x = x := fun x hmem =>
      (hkeep x fun heq => hl.fresh.1 (heq ▸ hmem)).trans (h.users x hmem)
    refine ⟨σ, hσ, hx.symm, (h.congr hσ husers).append (x := l.nameFor none) rfl ?_ ?_⟩
    · rw [hx]
      rfl
    · rw [hx]
      exact hl'.fresh.2
  | some n =>
    have hkept : ρ n = n := h.users n (mem_names_of_get? (hs n rfl))
    have hbound := h.isBound hl n
    refine ⟨ρ, fun x _ => rfl, hkept.symm, ?_⟩
    rw [ParameterList.push, ParameterList.push, pushNamed, pushNamed, hbound, hl.style, hl'.style]
    split
    · exact h
    · next hnew =>
      refine h.append (x := n) rfl (by rw [hkept]) ?_
      rw [hkept, hl'.mem_bound_iff (hs' n rfl), hbound]
      simpa using hnew

/-- Two lists that are filled from the same slots bind them under the same names, up to a
renaming. -/
theorem pushAll (h : Renamed b ρ l l') (hl : Named b l) (hl' : Named b' l')
    (hs : Follow b slots) (hs' : Follow b' slots) :
    ∃ σ, (∀ x ∈ l.bound, σ x = ρ x) ∧ l'.names slots = (l.names slots).map σ ∧
      Renamed b σ (l.pushAll slots) (l'.pushAll slots) := by
  induction slots generalizing l l' ρ with
  | nil => exact ⟨ρ, fun x _ => rfl, rfl, h⟩
  | cons s rest ih =>
    rw [Follow, List.forall_mem_cons] at hs hs'
    obtain ⟨σ, hσ, hname, hpush⟩ := h.push hl hl' hs.1 hs'.1
    obtain ⟨hnext, hbound, -, hmem⟩ := hl.push hs.1
    obtain ⟨τ, hτ, hnames, hall⟩ := ih hpush hnext (hl'.push hs'.1).1 hs.2 hs'.2
    refine ⟨τ, fun x hx => ?_, ?_, hall⟩
    · have hx' : x ∈ (l.push s.1 s.2).2.bound := hbound ▸ List.mem_append_left _ hx
      rw [hτ x hx', hσ x hx]
    · have hx' : l.nameFor s.1 ∈ (l.push s.1 s.2).2.bound := List.mem_map_of_mem hmem
      rw [names, names, List.map_cons, hnames, hname, hτ _ hx']

/-- A name of the list that is not bound is renamed to one that is not bound either. -/
theorem not_mem_names (h : Renamed b ρ l l') (hl : Named b l) (hl' : Named b' l') {x : String}
    (hx : x ∈ l.bound) (hb : x ∉ b.names) : ρ x ∉ b'.names := by
  obtain ⟨p, hp, rfl⟩ := List.mem_map.1 hx
  obtain ⟨⟨q, user⟩, he, rfl⟩ := List.mem_map.1 hp
  cases user with
  | true => exact absurd (mem_names_of_get? (hl.users he)) hb
  | false =>
    have he' : (q.rename ρ, false) ∈ l'.entries := by
      rw [h.entries]
      exact List.mem_map.2 ⟨_, he, rfl⟩
    exact hl'.generated he'

end Renamed

end ParameterList

/-! ## Compiling -/

/-- Under the named style, whether one compiled query is another one up to the names of its
generated placeholders. Both have the same literals with a placeholder for each of the slots between
them, and their placeholders and parameters go by the same names up to a renaming. -/
structure Compiled.Renamed (b b' : Bindings) (literals : List String)
    (slots : List (Option String × Value)) (names : List String) (ρ : String → String)
    (c c' : Compiled) : Prop where
  length : literals.length = slots.length + 1
  /-- A slot goes by its user's name, which is bound to its value, or else by a generated name,
  which is not bound and stands for no other slot. -/
  origin : List.Forall₂ (fun x slot => slot.1 = some x ∧ b.get? x = some slot.2 ∨
    slot.1 = none ∧ x ∉ b.names ∧ names.count x = 1) names slots
  text : c.text = interleave literals (names.map (":" ++ ·))
  parameters : c.parameters.map (·.name) = names.eraseDups
  renamedText : c'.text = interleave literals ((names.map ρ).map (":" ++ ·))
  renamedParameters : c'.parameters = c.parameters.map (·.rename ρ)
  /-- Different names stay different. -/
  injective : Set.InjOn ρ {x | x ∈ names}
  /-- A name that is bound stays as it is, so every user's name does. -/
  users : ∀ x ∈ b.names, ρ x = x
  /-- A generated name becomes one that is not bound. -/
  generated : ∀ x ∈ names, x ∉ b.names → ρ x ∉ b'.names

theorem Compiled.Renamed.values {b b' : Bindings} {literals names : List String}
    {slots : List (Option String × Value)} {ρ : String → String} {c c' : Compiled}
    (h : c.Renamed b b' literals slots names ρ c') : c'.values = c.values := by
  simp [Compiled.values, h.renamedParameters, Parameter.rename]

namespace Draft

variable {d : Draft} {b : Bindings} {c : Compiled}

theorem compile_shape {style : ParameterStyle} (hc : d.compile style = .ok c) :
    c.shape = d.shape := by
  rw [compile_eq, map_eq_ok_iff] at hc
  obtain ⟨r, -, rfl⟩ := hc
  rfl

theorem compile_rebind_error (h : ∀ name, d.Asks name → b.get? name = d.bindings.get? name)
    {style : ParameterStyle} {e : Error} (hc : d.compile style = .error e) :
    (d.rebind b).compile style = .error e := by
  rw [compile_eq, map_eq_error_iff] at hc ⊢
  rw [rendered_rebind h]
  exact Fragment.writeAll_error_congr hc _

/-- Without names, bindings that the clauses do not ask for change the names of parameters only. -/
theorem compile_rebind_of_ne_named
    (h : ∀ name, d.Asks name → b.get? name = d.bindings.get? name) {style : ParameterStyle}
    (hstyle : style ≠ .named) (hc : d.compile style = .ok c) :
    ∃ ps, (d.rebind b).compile style = .ok { c with parameters := ps } ∧
      ps.map (·.value) = c.values := by
  -- The lists agree in what the placeholders and the values are made of.
  let R : ParameterList → ParameterList → Prop := fun l l' =>
    l.style = style ∧ l'.style = style ∧ l'.size = l.size ∧
      l'.parameters.map (·.value) = l.parameters.map (·.value)
  have hR : ∀ {l l'}, R l l' → ∀ name v, (l'.push name v).1 = (l.push name v).1 ∧
      R (l.push name v).2 (l'.push name v).2 := by
    rintro l l' ⟨hl, hl', hsize, hvalues⟩ name v
    obtain ⟨hv, hn, hs⟩ := ParameterList.push_of_ne_named (hl ▸ hstyle) name v
    obtain ⟨hv', hn', hs'⟩ := ParameterList.push_of_ne_named (hl' ▸ hstyle) name v
    refine ⟨?_, hs.trans hl, hs'.trans hl', by rw [hn, hn', hsize], by rw [hv, hv', hvalues]⟩
    rw [ParameterList.push_fst, ParameterList.push_fst, hl, hl', hsize]
    cases style with
    | named => exact absurd rfl hstyle
    | positional | numbered => rfl
  have hstart : R (.empty style d.bindings.names) (.empty style b.names) := ⟨rfl, rfl, rfl, rfl⟩
  rw [compile_eq, map_eq_ok_iff] at hc
  obtain ⟨⟨texts, last⟩, hw, rfl⟩ := hc
  obtain ⟨last', hw', -, -, -, hvalues⟩ := Fragment.writeAll_congr hR hstart hw
  refine ⟨last'.parameters, ?_, hvalues⟩
  rw [compile_eq, rendered_rebind h]
  exact map_eq_ok_iff.2 ⟨_, hw', rfl⟩

/-- Under the named style, bindings that the clauses do not ask for change the generated names
only. -/
theorem compile_rebind_named (h : ∀ name, d.Asks name → b.get? name = d.bindings.get? name)
    (hs : ParameterList.Follow d.bindings d.rendered.fragment.slots)
    (hs' : ParameterList.Follow b d.rendered.fragment.slots) (hc : d.compile .named = .ok c) :
    ∃ c' ρ, (d.rebind b).compile .named = .ok c' ∧ c'.shape = c.shape ∧
      c.Renamed d.bindings b d.rendered.fragment.literals d.rendered.fragment.slots d.slotNames ρ
        c' := by
  have hf : d.rendered.Faultless := exists_compile_iff.1 ⟨c, hc⟩
  have hrendered := rendered_rebind h
  have hf' : (d.rebind b).rendered.Faultless := hrendered ▸ hf
  have hl := ParameterList.Named.empty d.bindings
  have hl' := ParameterList.Named.empty b
  have hstart : ParameterList.Renamed d.bindings id (.empty .named d.bindings.names)
      (.empty .named b.names) := ⟨rfl, Function.injective_id.injOn, fun _ _ => rfl⟩
  obtain ⟨ρ, -, hnames, hall⟩ := hstart.pushAll hl hl' hs hs'
  obtain ⟨out, hout, htext, hparams⟩ := compile_of_faultless hf .named
  obtain rfl : out = c := Except.ok.inj (hout.symm.trans hc)
  obtain ⟨c', hc', htext', hparams'⟩ := compile_of_faultless hf' .named
  rw [hrendered, show (d.rebind b).bindings = b from rfl] at htext' hparams'
  have hbound : out.parameters.map (·.name) = d.slotNames.eraseDups := by
    rw [hparams]
    simpa [slotNames, ParameterList.bound, ParameterList.empty, ParameterList.parameters]
      using hl.bound_pushAll hs
  have hmem : ∀ x ∈ d.slotNames, x ∈ out.parameters.map (·.name) := fun x hx => by
    rw [hbound]
    exact List.mem_eraseDups.2 hx
  rw [hparams] at hmem
  refine ⟨c', ρ, hc', ?_, Fragment.length_literals _, hl.names_cases hs, ?_, hbound, ?_, ?_, ?_,
    hall.users, ?_⟩
  · rw [compile_shape hc, compile_shape hc']
    rfl
  · rw [htext, hl.marks_eq hs]
    rfl
  · rw [htext', hl'.marks_eq hs', hnames]
    rfl
  · rw [hparams, hparams']
    exact hall.parameters
  · exact hall.injective.mono hmem
  · exact fun x hx hb => hall.not_mem_names (hl.pushAll hs) (hl'.pushAll hs') (hmem x hx) hb

end Draft

end PathQuery
