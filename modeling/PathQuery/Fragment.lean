import PathQuery.Error
import PathQuery.Parameter

/-!
# Fragments of query text

What a part of a query is rendered to before parameters are numbered: a list of pieces, each of
them text, a slot for a value, or a fault.

**Writing** (`Fragment.write`) goes from left to right. It binds the value of each slot in turn and
stops at the first fault, so the parameters follow the text whatever the style, and what was bound
before a fault stays bound.

Main statement: `write_append`, that a text is written part by part.
-/

namespace PathQuery

inductive Piece
  | text (s : String)
  /-- A placeholder for a value, under a user's name if there is one. -/
  | slot (name : Option String) (value : Value)
  | fault (e : Error)

abbrev Fragment := List Piece

namespace Fragment

/-- Fragments with a text between each two of them. -/
def joined (separator : String) (fragments : List Fragment) : Fragment :=
  List.intercalate [.text separator] fragments

/-- The text of a fragment and the parameters after it. -/
def write : Fragment → ParameterList → Except Error String × ParameterList
  | [], l => (.ok "", l)
  | .text s :: rest, l =>
    let (r, l) := write rest l
    (r.map (s ++ ·), l)
  | .slot name value :: rest, l =>
    let (mark, l) := l.push name value
    let (r, l) := write rest l
    (r.map (mark ++ ·), l)
  | .fault e :: _, l => (.error e, l)

/-- The text of a fragment with the parameters after it, or its first fault. -/
def write? (f : Fragment) (l : ParameterList) : Except Error (String × ParameterList) :=
  (f.write l).1.map (·, (f.write l).2)

theorem write_append (f g : Fragment) (l : ParameterList) :
    write (f ++ g) l = match write f l with
      | (.ok s, l') => ((write g l').1.map (s ++ ·), (write g l').2)
      | (.error e, l') => (.error e, l') := by
  have assoc : ∀ (s t : String) (r : Except Error String),
      (r.map (t ++ ·)).map (s ++ ·) = r.map (s ++ t ++ ·) := by
    intro s t r
    cases r <;> simp [Except.map, String.append_assoc]
  induction f generalizing l with
  | nil =>
    refine Prod.ext ?_ rfl
    simp only [List.nil_append, write]
    cases (write g l).1 <;> simp [Except.map]
  | cons p rest ih =>
    cases p with
    | text s =>
      simp only [List.cons_append, write, ih l]
      rcases write rest l with ⟨_ | t, l'⟩
      · rfl
      · exact Prod.ext (assoc s t _) rfl
    | slot name value =>
      simp only [List.cons_append, write]
      rcases l.push name value with ⟨mark, l₁⟩
      simp only [ih l₁]
      rcases write rest l₁ with ⟨_ | t, l'⟩
      · rfl
      · exact Prod.ext (assoc mark t _) rfl
    | fault e => rfl

end Fragment

end PathQuery
