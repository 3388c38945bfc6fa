import PathQuery.Proofs.Naming
import PathQuery.Proofs.Source
import PathQuery.Proofs.Rendered
import PathQuery.Proofs.Style

/-!
# Parameters follow the text

Text and parameters are written together from one fragment, which does not depend on the style. So
a query is the same *literals* in every style, with a placeholder between each two of them, and the
*slots* of the fragment in order are the values. What a style decides is how a placeholder is
written, and whether a user's name that is met again is bound again.

However the fragment is divided into parts, the text is written part by part (`writes_of_flatten`).

Main statement: `Reachable.compiles_in_every_style`.
-/

namespace PathQuery

/-- Literals with placeholders between them. -/
def interleave : List String → List String → String
  | l :: ls, m :: ms => l ++ m ++ interleave ls ms
  | l :: _, [] => l
  | [], _ => ""

namespace Fragment

variable {f : Fragment} {fs : List Fragment} {l : ParameterList} {e : Error} {s : String}

/-- The texts before, between and after the slots. -/
def literals : Fragment → List String
  | [] => [""]
  | .text s :: rest => (literals rest).modifyHead (s ++ ·)
  | .slot _ _ :: rest => "" :: literals rest
  | .fault _ :: rest => literals rest

/-- The slots in the order of the text, each with its user's name if it has one. -/
def slots : Fragment → List (Option String × Value)
  | [] => []
  | .slot name value :: rest => (name, value) :: slots rest
  | .text _ :: rest | .fault _ :: rest => slots rest

theorem length_literals (f : Fragment) : f.literals.length = f.slots.length + 1 := by
  induction f with
  | nil => rfl
  | cons p rest ih => cases p <;> simp [literals, slots, ih]

theorem mem_slots {x : Option String × Value} : x ∈ f.slots ↔ .slot x.1 x.2 ∈ f := by
  induction f with
  | nil => simp [slots]
  | cons p rest ih => cases p <;> simp [slots, ih, Prod.ext_iff]

/-! ## Writing a fragment -/

theorem interleave_modifyHead {ls : List String} (h : ls ≠ []) (s : String) (ms : List String) :
    interleave (ls.modifyHead (s ++ ·)) ms = s ++ interleave ls ms := by
  cases ls with
  | nil => exact absurd rfl h
  | cons l ls => cases ms <;> simp [interleave, String.append_assoc]

/-- A fragment is written as its literals with placeholders between them. -/
theorem write_eq (h : f.Faultless) (l : ParameterList) :
    f.write l = (.ok (interleave f.literals (l.marks f.slots)), l.pushAll f.slots) := by
  induction f generalizing l with
  | nil => rfl
  | cons p rest ih =>
    obtain ⟨hp, hrest⟩ := faultless_cons.1 h
    rw [write_cons hp, ih hrest]
    cases p with
    | text s =>
      have hne : literals rest ≠ [] := by
        rw [← List.length_pos_iff, length_literals]
        exact Nat.succ_pos _
      rw [literals, slots, interleave_modifyHead hne]
      rfl
    | slot name value =>
      rw [literals, slots, ParameterList.marks, interleave, String.empty_append]
      rfl
    | fault e => exact absurd rfl (hp e)

/-- The error that a fragment gives does not depend on what was bound before. -/
theorem write_error_congr (h : (f.write l).1 = .error e) (l' : ParameterList) :
    (f.write l').1 = .error e := by
  induction f generalizing l l' with
  | nil => cases h
  | cons p rest ih =>
    by_cases hp : ∃ e, p = .fault e
    · obtain ⟨e', rfl⟩ := hp
      exact h
    · have hp : ∀ e, p ≠ .fault e := fun e he => hp ⟨e, he⟩
      rw [write_cons hp, map_eq_error_iff] at h ⊢
      exact ih h _

/-! ## Writing sections -/

/-- Whether a fragment that is not empty begins with a text that is not empty, or cannot be
written. -/
def Opens : Fragment → Prop
  | .text s :: _ => s ≠ ""
  | .slot _ _ :: _ => False
  | _ => True

theorem isEmpty_of_write (ho : f.Opens) (h : (f.write l).1 = .ok s) : s.isEmpty = f.isEmpty := by
  cases f with
  | nil =>
    cases h
    rfl
  | cons p rest =>
    cases p with
    | text t =>
      rw [write, map_eq_ok_iff] at h
      obtain ⟨r, -, rfl⟩ := h
      have hne : t ++ r ≠ "" := fun h => ho (String.append_eq_empty_iff.1 h).1
      simpa using hne
    | slot name value => cases ho
    | fault e => cases h

theorem joined_cons_of_ne_nil (separator : String) (f : Fragment) (h : fs ≠ []) :
    joined separator (f :: fs) = f ++ .text separator :: joined separator fs := by
  cases fs with
  | nil => exact absurd rfl h
  | cons f' rest =>
    rw [joined, List.intercalate_cons_cons, ← joined]
    simp

/-- A fragment in several parts is written part by part. -/
theorem exists_writeAll_of_flatten {l' : ParameterList} (h : write fs.flatten l = (.ok s, l')) :
    ∃ texts, writeAll fs l = .ok (texts, l') ∧ s = String.join texts := by
  induction fs generalizing l s with
  | nil =>
    cases h
    exact ⟨[], rfl, rfl⟩
  | cons f rest ih =>
    rw [List.flatten_cons, write_append] at h
    split at h
    · next t l₁ hf =>
      obtain ⟨hr, hl⟩ := Prod.ext_iff.1 h
      obtain ⟨r, hrest, rfl⟩ := map_eq_ok_iff.1 hr
      obtain ⟨texts, hall, rfl⟩ := ih (Prod.ext hrest hl)
      exact ⟨t :: texts, by rw [writeAll, hf]; simp [hall, Except.map], String.join_cons.symm⟩
    · cases h

/-- Fragments that are written one after the other are written as one fragment, with a space
between each two that are not empty. -/
theorem write_joined (ho : ∀ f ∈ fs, f.Opens) {texts : List String} {l' : ParameterList}
    (h : writeAll fs l = .ok (texts, l')) :
    (joined " " (fs.filter (!·.isEmpty))).write l =
        (.ok (" ".intercalate (texts.filter (!·.isEmpty))), l') ∧
      (texts.filter (!·.isEmpty) = [] ↔ fs.filter (!·.isEmpty) = []) := by
  induction fs generalizing l texts with
  | nil =>
    cases h
    exact ⟨rfl, by simp⟩
  | cons f rest ih =>
    rw [List.forall_mem_cons] at ho
    rw [writeAll] at h
    split at h
    · next s l₁ hw =>
      obtain ⟨⟨ts, l₂⟩, hrest, heq⟩ := map_eq_ok_iff.1 h
      obtain ⟨rfl, rfl⟩ : s :: ts = texts ∧ l₂ = l' := Prod.ext_iff.1 heq
      obtain ⟨hjoined, hnil⟩ := ih ho.2 hrest
      have hempty : s.isEmpty = f.isEmpty := isEmpty_of_write (l := l) ho.1 (by rw [hw])
      cases f with
      | nil =>
        cases hw
        rw [List.filter_cons_of_neg (by simp), List.filter_cons_of_neg (by simp)]
        exact ⟨hjoined, hnil⟩
      | cons p tail =>
        rw [List.filter_cons_of_pos (by simp), List.filter_cons_of_pos (by rw [hempty]; rfl)]
        refine ⟨?_, by simp⟩
        by_cases hnone : rest.filter (!·.isEmpty) = []
        · rw [hnone] at hjoined
          obtain rfl : l₁ = l₂ := congrArg Prod.snd hjoined
          rw [hnone, hnil.2 hnone, joined, List.intercalate_singleton,
            String.intercalate_singleton, hw]
        · rw [joined_cons_of_ne_nil " " _ hnone, write_append, hw]
          dsimp only
          rw [write, hjoined, String.intercalate_cons_of_ne_nil fun h => hnone (hnil.1 h)]
          simp [Except.map, String.append_assoc]
    · cases h

/-- What is written part by part is a text for each part. -/
theorem forall₂_of_writeAll {texts : List String} {l' : ParameterList}
    (h : writeAll fs l = .ok (texts, l')) :
    List.Forall₂ (fun f s => ∃ l₁ l₂, write f l₁ = (.ok s, l₂)) fs texts := by
  induction fs generalizing l texts with
  | nil =>
    cases h
    exact .nil
  | cons f rest ih =>
    rw [writeAll] at h
    split at h
    · next s l₁ hw =>
      obtain ⟨⟨ts, l₂⟩, hrest, heq⟩ := map_eq_ok_iff.1 h
      obtain ⟨rfl, rfl⟩ : s :: ts = texts ∧ l₂ = l' := Prod.ext_iff.1 heq
      exact .cons ⟨l, l₁, hw⟩ (ih hrest)
    · cases h

theorem length_writeAll {texts : List String} {l' : ParameterList}
    (h : writeAll fs l = .ok (texts, l')) : texts.length = fs.length :=
  (forall₂_of_writeAll h).length_eq.symm

theorem writeAll_error_congr (h : writeAll fs l = .error e) (l' : ParameterList) :
    writeAll fs l' = .error e := by
  induction fs generalizing l l' with
  | nil => cases h
  | cons f rest ih =>
    rw [writeAll] at h ⊢
    split at h
    · next s l₁ hw =>
      have hf : f.Faultless := faultless_of_write (l := l) (by rw [hw])
      obtain ⟨s', hs'⟩ := (exists_write_iff l').2 hf
      have hw' : f.write l' = (.ok s', (f.write l').2) := Prod.ext hs' rfl
      rw [hw']
      exact map_eq_error_iff.2 (ih (map_eq_error_iff.1 h) _)
    · next e' l₁ hw =>
      cases h
      have he := write_error_congr (l := l) (by rw [hw]) l'
      have hw' : f.write l' = (.error e, (f.write l').2) := Prod.ext he rfl
      rw [hw']

end Fragment

/-! ## Compiling -/

namespace Draft

variable {d : Draft}

theorem opens_conditionsFragment (sub : Nat → Fragment) {keyword : String} (hk : keyword ≠ "")
    (cs : List Condition) : (d.conditionsFragment sub keyword cs).Opens := by
  unfold conditionsFragment
  split
  · trivial
  · exact hk

theorem opens_rendered (d : Draft) : ∀ f ∈ d.rendered.toList, f.Opens := by
  rw [rendered, sections]
  cases hc : d.clauses[0]? with
  | none => simp [Sections.fault, Sections.toList, Fragment.Opens]
  | some c =>
    simp only [Sections.toList, List.forall_mem_cons]
    refine ⟨?_, ?_, ?_, ?_, ?_, fun f hf => absurd hf List.not_mem_nil⟩
    · unfold selectFragment
      split
      · trivial
      · show "select distinct " ≠ ""
        decide
      · show (if _ then "select distinct " else "select ") ≠ ""
        split <;> decide
    · unfold sourceFragment
      split
      · trivial
      · show "from " ≠ ""
        decide
    · exact opens_conditionsFragment _ (by decide) _
    · unfold groupingFragment
      split
      · trivial
      · show "group by " ≠ ""
        decide
    · unfold orderingFragment
      split
      · trivial
      · show "order by " ≠ ""
        decide

theorem fragment_faultless {x : Sections} (hf : x.Faultless) : x.fragment.Faultless := by
  intro e he
  obtain ⟨f, hmem, hfe⟩ := (mem_fragment rfl _).1 he
  exact hf f hmem e hfe

/-- A draft that has no fault is compiled to the literals of its fragment, with the placeholders of
the slots between them. -/
theorem compile_of_faultless (hf : d.rendered.Faultless) (style : ParameterStyle) :
    ∃ c, d.compile style = .ok c ∧
      c.text = interleave d.rendered.fragment.literals
        ((ParameterList.empty style d.bindings.names).marks d.rendered.fragment.slots) ∧
      c.parameters =
        ((ParameterList.empty style d.bindings.names).pushAll
          d.rendered.fragment.slots).parameters := by
  have hwhole := fragment_faultless hf
  obtain ⟨⟨texts, l⟩, hw⟩ := Fragment.exists_writeAll_iff
    (l := .empty style d.bindings.names).2 hf
  have hjoined := (Fragment.write_joined d.opens_rendered hw).1
  rw [← Sections.fragment, Fragment.write_eq hwhole, Prod.mk.injEq, Except.ok.injEq] at hjoined
  obtain ⟨htext, rfl⟩ := hjoined
  have hlength : texts.length = 5 := Fragment.length_writeAll hw
  obtain ⟨select, source, filter, grouping, ordering, rfl⟩ :
      ∃ a b c d e, texts = [a, b, c, d, e] := by
    rcases texts with _ | ⟨a, _ | ⟨b, _ | ⟨c, _ | ⟨d, _ | ⟨e, _ | ⟨f, rest⟩⟩⟩⟩⟩⟩ <;> simp at hlength
    exact ⟨a, b, c, d, e, rfl⟩
  refine ⟨_, by rw [compile_eq, hw]; rfl, ?_, rfl⟩
  rw [htext]
  rfl

/-- Whether a compiled query is what fragments are written to, one after the other. -/
def Writes (d : Draft) (style : ParameterStyle) (out : Compiled) (fs : List Fragment) : Prop :=
  ∃ texts l, Fragment.writeAll fs (.empty style d.bindings.names) = .ok (texts, l) ∧
    out.text = String.join texts ∧ out.parameters = l.parameters

/-- A draft is written part by part, however its fragment is divided. -/
theorem writes_of_flatten {style : ParameterStyle} {out : Compiled}
    (hc : d.compile style = .ok out) {fs : List Fragment}
    (h : d.rendered.fragment = fs.flatten) : d.Writes style out fs := by
  have hf := exists_compile_iff.1 ⟨out, hc⟩
  obtain ⟨c, hc', htext, hparams⟩ := compile_of_faultless hf style
  obtain rfl : c = out := Except.ok.inj (hc'.symm.trans hc)
  have hw := Fragment.write_eq (fragment_faultless hf) (.empty style d.bindings.names)
  rw [← htext, h] at hw
  obtain ⟨texts, hall, hjoin⟩ := Fragment.exists_writeAll_of_flatten hw
  exact ⟨texts, _, hall, hjoin, h ▸ hparams⟩

/-- The value of every slot is among the parameters. -/
theorem mem_values {style : ParameterStyle} {out : Compiled} (hc : d.compile style = .ok out)
    (hfollow : ParameterList.Follow d.bindings d.rendered.fragment.slots)
    {slot : Option String × Value} (h : slot ∈ d.rendered.fragment.slots) :
    slot.2 ∈ out.values := by
  obtain ⟨c, hc', -, hparams⟩ := compile_of_faultless (exists_compile_iff.1 ⟨out, hc⟩) style
  obtain rfl : c = out := Except.ok.inj (hc'.symm.trans hc)
  rw [Compiled.values, hparams]
  exact ParameterList.value_mem_pushAll style hfollow h

/-- Under a style without names every slot is bound, and placeholders tell positions only. -/
theorem compile_of_ne_named (hf : d.rendered.Faultless) (style : ParameterStyle)
    (hstyle : style ≠ .named) : ∃ c, d.compile style = .ok c ∧
      c.text = interleave d.rendered.fragment.literals
        ((List.range d.rendered.fragment.slots.length).map fun k =>
          ParameterList.placeholder style (k + 1) "") ∧
      c.values = d.rendered.fragment.slots.map (·.2) := by
  obtain ⟨c, hc, htext, hparams⟩ := compile_of_faultless hf style
  have hne : (ParameterList.empty style d.bindings.names).style ≠ .named := hstyle
  refine ⟨c, hc, ?_, ?_⟩
  · rw [htext, ParameterList.marks_of_ne_named hne]
    simp [ParameterList.empty, ParameterList.size]
  · rw [Compiled.values, hparams, ParameterList.values_pushAll hne]
    simp [ParameterList.empty, ParameterList.parameters]

/-- The names that the slots of a draft go by under the named style. -/
def slotNames (d : Draft) : List String :=
  (ParameterList.empty .named d.bindings.names).names d.rendered.fragment.slots

/-- Under the named style a slot is bound by its name, unless that was bound before. -/
theorem compile_named (hf : d.rendered.Faultless)
    (hfollow : ParameterList.Follow d.bindings d.rendered.fragment.slots) :
    ∃ c, d.compile .named = .ok c ∧
      c.text = interleave d.rendered.fragment.literals (d.slotNames.map (":" ++ ·)) ∧
      (c.parameters.map (·.name)).Nodup ∧ c.parameters.map (·.name) = d.slotNames.eraseDups ∧
      List.Forall₂ (fun x slot => c.parameters.filter (·.name == x) = [⟨x, slot.2⟩])
        d.slotNames d.rendered.fragment.slots := by
  obtain ⟨c, hc, htext, hparams⟩ := compile_of_faultless hf .named
  have hempty := ParameterList.Named.empty d.bindings
  have hall := hempty.pushAll hfollow
  have hbound := hempty.bound_pushAll hfollow
  refine ⟨c, hc, ?_, ?_, ?_, ?_⟩
  · rw [htext, hempty.marks_eq hfollow]
    rfl
  · rw [hparams]
    exact hall.nodup
  · rw [hparams]
    simpa [slotNames, ParameterList.bound, ParameterList.empty, ParameterList.parameters]
      using hbound
  · rw [hparams]
    refine (hempty.mem_pushAll hfollow).2.imp fun x slot hmem => ?_
    exact hall.filter_eq hmem

theorem compile_error_congr {style : ParameterStyle} {e : Error}
    (h : d.compile style = .error e) (style' : ParameterStyle) :
    d.compile style' = .error e := by
  rw [compile_eq, map_eq_error_iff] at h ⊢
  exact Fragment.writeAll_error_congr h _

end Draft

/-! ## Slots of users' names -/

theorem slot_not_mem_rawFragment {text n : String} {values : List Value} {v : Value} :
    .slot (some n) v ∉ rawFragment text values := by
  have hweave : ∀ parts vs, .slot (some n) v ∉ weave parts vs := by
    intro parts
    induction parts with
    | nil => intro vs; cases vs <;> simp [weave]
    | cons part parts ih => intro vs; cases vs <;> simp [weave, ih]
  rw [rawFragment]
  split
  · exact hweave _ _
  · simp

/-- The slot of a user's name holds the value that is bound to it. -/
theorem Leaf.get?_of_slot {g : Graph} {b : Bindings} {leaf : Leaf Nat} {n : String} {v : Value}
    (h : .slot (some n) v ∈ leaf.fragment g b) : b.get? n = some v := by
  cases leaf with
  | node i =>
    rw [Leaf.fragment, Graph.nodeFragment] at h
    split at h <;> simp at h
  | value v' => simp [Leaf.fragment] at h
  | parameter name =>
    rw [Leaf.fragment, Operand.fragment] at h
    split at h
    · next v' hv =>
      simp only [List.mem_singleton, Piece.slot.injEq, Option.some.injEq] at h
      rw [h.1, h.2, hv]
    · simp at h
  | raw text values => exact absurd h slot_not_mem_rawFragment

theorem Query.Sound.follow {h : Nat → Handles} {q : Query} (hq : q.Sound h) :
    ParameterList.Follow q.bindings q.rendered.fragment.slots := by
  intro s hs n hn
  rw [Fragment.mem_slots, hn, Draft.mem_fragment rfl, hq.mem_rendered rfl] at hs
  obtain ⟨scope, -, hb⟩ := hs
  cases hb with
  | operand o shown hslot =>
    obtain ⟨leaf, -, hleaf⟩ := (Operand.mem_fragment rfl o).1 hslot
    exact Leaf.get?_of_slot hleaf
  | noRoots _ heq => cases heq
  | untyped _ _ _ _ heq => cases heq

/-! ## Runs -/

namespace Stage

/-- Whether a stage is compiled in each style to the same literals, with a placeholder for each of
the slots between them, and to the parameters of these placeholders. Under the named style each
slot goes by one of the names. -/
structure StylesAgree (s : Stage) (literals : List String) (slots : List (Option String × Value))
    (names : List String) : Prop where
  length_literals : literals.length = slots.length + 1
  length_names : names.length = slots.length
  positional : ∃ c, (s.withStyle .positional).query.compile = .ok c ∧
    c.text = interleave literals (slots.map fun _ => "?") ∧ c.values = slots.map (·.2)
  numbered : ∃ c, (s.withStyle .numbered).query.compile = .ok c ∧
    c.text = interleave literals ((List.range slots.length).map fun k => "?" ++ toString (k + 1)) ∧
    c.values = slots.map (·.2)
  /-- No two parameters have the same name, and they are in the order in which their names are met
  first. The one of a name has the value of each slot that goes by it. -/
  named : ∃ c, (s.withStyle .named).query.compile = .ok c ∧
    c.text = interleave literals (names.map (":" ++ ·)) ∧
    (c.parameters.map (·.name)).Nodup ∧ c.parameters.map (·.name) = names.eraseDups ∧
    List.Forall₂ (fun x slot => c.parameters.filter (·.name == x) = [⟨x, slot.2⟩]) names slots
  /-- A slot goes by its user's name, which is bound to its value, or else by a name of its own
  that no user's parameter has. -/
  origin : List.Forall₂ (fun x slot =>
      slot.1 = some x ∧ s.query.bindings.get? x = some slot.2 ∨
      slot.1 = none ∧ x ∉ s.query.bindings.names ∧ names.count x = 1) names slots

theorem compile_withStyle (s : Stage) (style : ParameterStyle) :
    (s.withStyle style).query.compile =
      if s.query.pending.isEmpty then s.query.toDraft.compile style
      else .error (.danglingAccess s.query.pendingPaths) := rfl

/-- A query without faults is compiled alike in every style. -/
theorem stylesAgree {s : Stage} (h : s.Reachable) (hp : s.query.pending.isEmpty = true)
    (hf : s.query.rendered.Faultless) :
    s.StylesAgree s.query.rendered.fragment.literals s.query.rendered.fragment.slots
      s.query.slotNames := by
  have hcompile : ∀ style, (s.withStyle style).query.compile = s.query.toDraft.compile style := by
    intro style
    rw [compile_withStyle, if_pos hp]
  have hfollow := h.sound.query.follow
  refine ⟨Fragment.length_literals _, ParameterList.length_names _ _, ?_, ?_, ?_, ?_⟩
  · obtain ⟨c, hc, htext, hvalues⟩ := Draft.compile_of_ne_named hf .positional (by decide)
    refine ⟨c, hcompile _ ▸ hc, ?_, hvalues⟩
    rw [htext]
    simp [ParameterList.placeholder, List.map_const']
  · obtain ⟨c, hc, htext, hvalues⟩ := Draft.compile_of_ne_named hf .numbered (by decide)
    exact ⟨c, hcompile _ ▸ hc, htext, hvalues⟩
  · obtain ⟨c, hc, hnamed⟩ := Draft.compile_named hf hfollow
    exact ⟨c, hcompile _ ▸ hc, hnamed⟩
  · exact (ParameterList.Named.empty s.query.bindings).names_cases hfollow

/-- **Parameters follow the text, in every style.** A query gives the same error in every style, or
the styles agree on its literals and slots. -/
theorem Reachable.compiles_in_every_style {s : Stage} (h : s.Reachable) :
    (∃ e, ∀ style, (s.withStyle style).query.compile = .error e) ∨
      s.StylesAgree s.query.rendered.fragment.literals s.query.rendered.fragment.slots
        s.query.slotNames := by
  simp only [compile_withStyle]
  cases hp : s.query.pending.isEmpty with
  | false => exact Or.inl ⟨_, fun style => rfl⟩
  | true =>
    by_cases hf : s.query.rendered.Faultless
    · exact Or.inr (stylesAgree h hp hf)
    · obtain ⟨e, he⟩ : ∃ e, s.query.toDraft.compile .positional = .error e := by
        cases hc : s.query.toDraft.compile .positional with
        | error e => exact ⟨e, rfl⟩
        | ok c => exact absurd (Draft.exists_compile_iff.1 ⟨c, hc⟩) hf
      exact Or.inl ⟨e, fun style => Draft.compile_error_congr he style⟩

/-- A query whose user has bound the first generated name and meets it twice, with values of no name
between and behind. -/
def sampleAges : Stage :=
  (start Sample.registry .default).run
    [.call (.addFrom "Person"), .call (.access ⟨0, .root⟩ "age"),
      .call (.restrict (.filter ⟨1, .property⟩) .always (.compareParameter .ge "p1")),
      .call (.access ⟨0, .root⟩ "age"),
      .call (.restrict (.filter ⟨1, .property⟩) .always (.between (.int 20) (.int 90))),
      .call (.access ⟨0, .root⟩ "age"),
      .call (.restrict (.filter ⟨1, .property⟩) .always (.compareParameter .ne "p1")),
      .call (.access ⟨0, .root⟩ "name"),
      .call (.restrict (.filter ⟨2, .property⟩) .always (.compareValue .eq (.string "Li"))),
      .call (.setParameter "p1" (.int 18))]

theorem sample_stylesAgree : sampleAges.Reachable ∧
    sampleAges.query.rendered.fragment.slots.map (·.1) =
      [some "p1", none, none, some "p1", none] ∧
    sampleAges.query.slotNames = ["p1", "p2", "p3", "p1", "p4"] ∧
    sampleAges.StylesAgree sampleAges.query.rendered.fragment.literals
      sampleAges.query.rendered.fragment.slots sampleAges.query.slotNames := by
  have hsample : sampleAges.Reachable := reachable_start _ _ _
  have hok : sampleAges.query.compile.isOk = true := by decide +kernel
  refine ⟨hsample, by decide +kernel, by decide +kernel,
    (Reachable.compiles_in_every_style hsample).resolve_left ?_⟩
  rintro ⟨e, he⟩
  have herror : sampleAges.query.compile = .error e := he sampleAges.query.settings.parameterStyle
  rw [herror] at hok
  cases hok

end Stage

end PathQuery
