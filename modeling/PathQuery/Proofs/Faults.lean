import PathQuery.Compiled

/-!
# Faults in a fragment

A fragment can be written exactly if no piece of it is a fault, whatever was bound before and in
whatever style; otherwise the error is one of its faults. So which errors there are is a question
about the pieces of a fragment, and for those that are no text (`isText`) the separators of a list
do not matter.

Main statements: `exists_write_iff`, `Draft.exists_compile_iff` and `Draft.fault_of_compile`.
-/

namespace PathQuery

theorem map_eq_error_iff {ε α β : Type} {r : Except ε α} {f : α → β} {e : ε} :
    r.map f = .error e ↔ r = .error e := by
  cases r <;> simp [Except.map]

theorem map_eq_ok_iff {ε α β : Type} {r : Except ε α} {f : α → β} {b : β} :
    r.map f = .ok b ↔ ∃ a, r = .ok a ∧ f a = b := by
  cases r <;> simp [Except.map]

theorem exists_map_eq_ok_iff {ε α β : Type} {r : Except ε α} {f : α → β} :
    (∃ b, r.map f = .ok b) ↔ ∃ a, r = .ok a := by
  cases r <;> simp [Except.map]

namespace Piece

def isText : Piece → Bool
  | .text _ => true
  | _ => false

theorem ne_text {p : Piece} (hp : p.isText = false) (s : String) : p ≠ .text s := by
  rintro rfl
  cases hp

/-- What a piece that is no fault is written as, and the parameters after it. -/
def emit : Piece → ParameterList → String × ParameterList
  | .text s, l => (s, l)
  | .slot name value, l => l.push name value
  | .fault _, l => ("", l)

end Piece

namespace Fragment

variable {f : Fragment} {fs : List Fragment} {p : Piece} {e : Error} {l : ParameterList}
  {s : String}

/-- No piece of the fragment is a fault. -/
def Faultless (f : Fragment) : Prop := ∀ e, Piece.fault e ∉ f

theorem faultless_cons {rest : Fragment} :
    Faultless (p :: rest) ↔ (∀ e, p ≠ .fault e) ∧ Faultless rest := by
  simp only [Faultless, List.mem_cons, not_or, forall_and]
  exact and_congr_left' (forall_congr' fun e => ne_comm)

theorem joined_cons (separator : String) (f : Fragment) (rest : List Fragment) :
    joined separator (f :: rest) = f ++ rest.flatMap (.text separator :: ·) := by
  induction rest generalizing f with
  | nil => simp [joined]
  | cons f' rest ih =>
    rw [joined, List.intercalate_cons_cons, ← joined, ih]
    simp

theorem mem_joined (hp : p.isText = false) (separator : String) :
    p ∈ joined separator fs ↔ ∃ f ∈ fs, p ∈ f := by
  have hne := Piece.ne_text hp separator
  cases fs with
  | nil => simp [joined]
  | cons f rest => simp [joined_cons, hne]

/-! ## Writing -/

theorem write_cons {rest : Fragment} (hp : ∀ e, p ≠ .fault e) : write (p :: rest) l =
    ((write rest (p.emit l).2).1.map ((p.emit l).1 ++ ·), (write rest (p.emit l).2).2) := by
  cases p with
  | text s => rfl
  | slot name value => rfl
  | fault e => exact absurd rfl (hp e)

theorem fault_of_write (h : (f.write l).1 = .error e) : .fault e ∈ f := by
  induction f generalizing l with
  | nil => cases h
  | cons p rest ih =>
    by_cases hp : ∃ e, p = .fault e
    · obtain ⟨e', rfl⟩ := hp
      cases h
      exact List.mem_cons_self
    · rw [write_cons fun e he => hp ⟨e, he⟩, map_eq_error_iff] at h
      exact List.mem_cons_of_mem p (ih h)

theorem faultless_of_write (h : (f.write l).1 = .ok s) : f.Faultless := by
  induction f generalizing l s with
  | nil => exact fun e he => nomatch he
  | cons p rest ih =>
    have hp : ∀ e, p ≠ .fault e := by
      rintro e rfl
      cases h
    rw [write_cons hp, map_eq_ok_iff] at h
    obtain ⟨text, hw, -⟩ := h
    exact faultless_cons.2 ⟨hp, ih hw⟩

/-- **What can be written.** -/
theorem exists_write_iff (l : ParameterList) : (∃ s, (f.write l).1 = .ok s) ↔ f.Faultless := by
  constructor
  · rintro ⟨s, hs⟩
    exact faultless_of_write hs
  · intro h
    cases hw : (f.write l).1 with
    | ok s => exact ⟨s, rfl⟩
    | error e => exact absurd (fault_of_write hw) (h e)

end Fragment

/-! ## Compiling -/

/-- No section holds a fault. -/
def Sections.Faultless (s : Sections) : Prop := ∀ f ∈ s.toList, f.Faultless

namespace Fragment

/-- Writes fragments one after the other, up to the first fault. -/
def writeAll : List Fragment → ParameterList → Except Error (List String × ParameterList)
  | [], l => .ok ([], l)
  | f :: rest, l =>
    match f.write l with
    | (.ok s, l) => (writeAll rest l).map fun r => (s :: r.1, r.2)
    | (.error e, _) => .error e

theorem exists_writeAll_iff {fs : List Fragment} {l : ParameterList} :
    (∃ r, writeAll fs l = .ok r) ↔ ∀ f ∈ fs, f.Faultless := by
  induction fs generalizing l with
  | nil => simp [writeAll]
  | cons f rest ih =>
    rw [List.forall_mem_cons, ← exists_write_iff l, writeAll]
    cases hw : f.write l with
    | mk r l' =>
      cases r with
      | error e => simp
      | ok s =>
        rw [← ih (l := l')]
        simp [exists_map_eq_ok_iff]

theorem fault_of_writeAll {fs : List Fragment} {l : ParameterList} {e : Error}
    (h : writeAll fs l = .error e) : ∃ f ∈ fs, .fault e ∈ f := by
  induction fs generalizing l with
  | nil => cases h
  | cons f rest ih =>
    rw [writeAll] at h
    split at h
    · next s l' hw =>
      obtain ⟨f', hf', he⟩ := ih (map_eq_error_iff.1 h)
      exact ⟨f', List.mem_cons_of_mem f hf', he⟩
    · next e' l' hw =>
      cases h
      exact ⟨f, List.mem_cons_self, fault_of_write (l := l) (by rw [hw])⟩

end Fragment

namespace Draft

variable {d : Draft} {style : ParameterStyle}

/-- Compiling writes the sections of the outermost scope one after the other. -/
theorem compile_eq (d : Draft) (style : ParameterStyle) :
    d.compile style =
      (Fragment.writeAll d.rendered.toList (.empty style d.bindings.names)).map fun r =>
        ⟨r.1.getD 0 "", r.1.getD 1 "", r.1.getD 2 "", r.1.getD 3 "", r.1.getD 4 "",
          r.2.parameters, d.shape⟩ := by
  have hbind : ∀ {β : Type} (f : Fragment) (l : ParameterList)
      (k : String × ParameterList → Except Error β), (f.write? l >>= k) =
        match f.write l with
        | (.ok s, l) => k (s, l)
        | (.error e, _) => .error e := by
    intro β f l k
    rw [Fragment.write?]
    cases f.write l with
    | mk r l' => cases r <;> rfl
  unfold compile
  simp only [hbind, Sections.toList, Fragment.writeAll]
  rcases d.rendered.select.write (.empty style d.bindings.names) with ⟨_ | select, l⟩
  · rfl
  rcases hsource : d.rendered.source.write l with ⟨_ | source, l₁⟩
  · simp only [hsource]; rfl
  rcases hfilter : d.rendered.filter.write l₁ with ⟨_ | filter, l₂⟩
  · simp only [hsource, hfilter]; rfl
  rcases hgrouping : d.rendered.grouping.write l₂ with ⟨_ | grouping, l₃⟩
  · simp only [hsource, hfilter, hgrouping]; rfl
  rcases hordering : d.rendered.ordering.write l₃ with ⟨_ | ordering, l₄⟩
  · simp only [hsource, hfilter, hgrouping, hordering]; rfl
  simp only [hsource, hfilter, hgrouping, hordering]
  rfl

theorem exists_compile_iff : (∃ c, d.compile style = .ok c) ↔ d.rendered.Faultless := by
  rw [Sections.Faultless, ← Fragment.exists_writeAll_iff (l := .empty style d.bindings.names),
    compile_eq, exists_map_eq_ok_iff]

theorem fault_of_compile {e : Error} (h : d.compile style = .error e) :
    ∃ f ∈ d.rendered.toList, .fault e ∈ f := by
  rw [compile_eq, map_eq_error_iff] at h
  exact Fragment.fault_of_writeAll h

end Draft

end PathQuery
