import Mathlib.Data.Finset.Insert
import PathQuery.Proofs.Overlay
import PathQuery.Proofs.TomlOrder
import PathQuery.Settings.Configuration

/-!
# Configurations that say a part

A configuration that has some of the fields of given settings, and no others, gives these settings
in the fields it has and the default ones in the others.

The settings are looked at field by field (`Field`). What a configuration has under the name of a
field is laid over what the defaults have there (`Json.lookup_mergeMembers`), and each of the five
values replaces the default one: four are no objects, and the further settings are laid over an
object without members. In particular settings that are written are read again
(`configured_toJson`).

What a text holds is canonical in either format, so the path law says what becomes of every
configuration that is read (`appears_of_read`).

Main statement: `configured_only`, and `overrides_exactly` together with what merging does at every
path.
-/

namespace PathQuery

namespace Json

variable {α : Type} {name : α → String}

/-- Members that are set under different names are all found. -/
theorem lookup_ofMembers_map [DecidableEq α] (hname : Function.Injective name) (value : α → Json)
    (as : List α) (a : α) : lookup (name a) (ofMembers (as.map fun b => (name b, value b))) =
      if a ∈ as then some (value a) else none := by
  suffices h : ∀ acc, lookup (name a)
      ((as.map fun b => (name b, value b)).foldl (fun acc m => insert m.1 m.2 acc) acc) =
        if a ∈ as then some (value a) else lookup (name a) acc from h []
  induction as with
  | nil =>
    intro acc
    simp
  | cons b as ih =>
    intro acc
    rw [List.map_cons, List.foldl_cons, ih, lookup_insert]
    by_cases hab : a = b
    · subst hab
      simp
    · have hne : name a ≠ name b := fun h => hab (hname h)
      simp [hab, hne]

end Json

namespace Settings

variable {s t : Settings} {ms : List (String × Json)}

/-! ## Settings by their fields -/

/-- The fields of settings. -/
inductive Field
  | debug
  | logLevel
  | aliasStem
  | parameterStyle
  | extra
deriving DecidableEq, Repr

namespace Field

/-- All fields in their order. -/
def all : List Field := [debug, logLevel, aliasStem, parameterStyle, extra]

/-- The name of a field in configurations. -/
def name : Field → String
  | debug => "debug"
  | logLevel => "log_level"
  | aliasStem => "alias_prefix"
  | parameterStyle => "parameter_style"
  | extra => "extra"

theorem mem_all (f : Field) : f ∈ all := by cases f <;> decide

theorem map_name_all : all.map name = fieldNames := rfl

theorem name_injective : Function.Injective name := by
  intro f g h
  cases f <;> cases g <;> first | rfl | exact absurd h (by decide)

end Field

/-- The value of a field as JSON. -/
def encoded (s : Settings) : Field → Json
  | .debug => .bool s.debug
  | .logLevel => .string s.logLevel
  | .aliasStem => .string s.aliasStem
  | .parameterStyle => .string s.parameterStyle.name
  | .extra => .object s.extra.list

/-- The object that has some of the fields and nothing else. -/
def only (s : Settings) (K : Finset Field) : Json :=
  .object (Json.ofMembers ((Field.all.filter (· ∈ K)).map fun f => (f.name, s.encoded f)))

/-- The settings that agree with given ones in some of the fields and are the default ones in the
others. -/
def chosen (s : Settings) (K : Finset Field) : Settings where
  debug := if .debug ∈ K then s.debug else default.debug
  logLevel := if .logLevel ∈ K then s.logLevel else default.logLevel
  aliasStem := if .aliasStem ∈ K then s.aliasStem else default.aliasStem
  parameterStyle := if .parameterStyle ∈ K then s.parameterStyle else default.parameterStyle
  extra := if .extra ∈ K then s.extra else default.extra

theorem toJson_eq (s : Settings) : s.toJson =
    .object (Json.ofMembers (Field.all.map fun f => (f.name, s.encoded f))) := rfl

theorem encoded_chosen (s : Settings) (K : Finset Field) (f : Field) :
    (s.chosen K).encoded f = if f ∈ K then s.encoded f else default.encoded f := by
  cases f <;> simp only [chosen, encoded] <;> split <;> rfl

/-! ## Reading settings from their fields -/

theorem mapM_lookup (h : ∀ f : Field, Json.lookup f.name ms = some (t.encoded f))
    (fs : List Field) : (fs.mapM fun f => Json.lookup f.name ms) = some (fs.map t.encoded) := by
  induction fs with
  | nil => rfl
  | cons f fs ih => simp [List.mapM_cons, h f, ih]

/-- An object that has the five values of settings under their names is read as these settings,
whatever else it has. -/
theorem ofJson_of_lookup (h : ∀ f : Field, Json.lookup f.name ms = some (t.encoded f)) :
    ofJson? (.object ms) = some t := by
  have hfields : (fieldNames.mapM fun name => Json.lookup name ms) =
      some (Field.all.map t.encoded) := by
    rw [← Field.map_name_all, List.mapM_map]
    exact mapM_lookup h Field.all
  have hstyle : styleOfJson? (.string t.parameterStyle.name) = some t.parameterStyle :=
    ParameterStyle.ofName?_name _
  rw [ofJson?, hfields, Option.bind_some]
  show (styleOfJson? (.string t.parameterStyle.name)).map _ = _
  rw [hstyle, Json.Members.collect_list]
  rfl

/-! ## Partial configurations -/

/-- The value of a field replaces the default one. -/
theorem merge_default (s : Settings) (f : Field) :
    Json.merge (default.encoded f) (s.encoded f) = s.encoded f := by
  cases f with
  | extra => exact congrArg Json.object (Json.mergeMembers_nil s.extra.ordered)
  | debug | logLevel | aliasStem | parameterStyle => rfl

/-- **A partial configuration decides the fields it has, and no others.** -/
theorem configured_only (format : Format) (hstem : s.aliasStem ≠ "") (K : Finset Field) :
    configured format (s.only K) = .ok (s.chosen K) := by
  have hread : ofJson? (Json.merge default.toJson (s.only K)) = some (s.chosen K) := by
    rw [toJson_eq, only, Json.merge_object]
    apply ofJson_of_lookup
    intro f
    rw [Json.lookup_mergeMembers _ (Json.ordered_ofMembers _),
      Json.lookup_ofMembers_map Field.name_injective, if_pos f.mem_all,
      Json.lookup_ofMembers_map Field.name_injective, encoded_chosen]
    by_cases hf : f ∈ K
    · simp [hf, Field.mem_all, Json.layered, merge_default]
    · simp [hf]
  have hchosen : (s.chosen K).aliasStem ≠ "" := by
    by_cases hK : Field.aliasStem ∈ K
    · simpa [chosen, hK] using hstem
    · simp [chosen, hK, default]
  rw [configured, hread]
  simp [String.isEmpty_iff, hchosen]

/-- Settings that are written are read again. -/
theorem configured_toJson (format : Format) (hstem : s.aliasStem ≠ "") :
    configured format s.toJson = .ok s := by
  have hall : ∀ f, f ∈ Field.all.toFinset := fun f => List.mem_toFinset.2 f.mem_all
  have honly : s.only Field.all.toFinset = s.toJson := by simp [only, toJson_eq, hall]
  have hchosen : s.chosen Field.all.toFinset = s := by simp [chosen, hall]
  have hread := configured_only format hstem Field.all.toFinset
  rwa [honly, hchosen] at hread

/-- Settings that were configured have a stem of aliases. -/
theorem aliasStem_ne_empty {format : Format} {config : Json}
    (h : configured format config = .ok s) : s.aliasStem ≠ "" := by
  unfold configured at h
  split at h
  · cases h
  · split at h
    · cases h
    · next hstem =>
      cases h
      exact fun hempty => hstem (String.isEmpty_iff.2 hempty)

/-! ## Configurations in texts -/

/-- The value of a text is canonical, whatever order its keys stand in. -/
theorem Format.canonical_of_read {format : Format} {text : String} {config : Json}
    (h : format.read? text = some config) : config.Canonical := by
  cases format with
  | toml => exact Toml.canonical_of_read h
  | json => exact Json.canonical_of_read h

/-- What a configuration makes of the default settings at a path. -/
theorem appears_of_read {format : Format} {text : String} {config : Json}
    (h : format.read? text = some config) (p : List String) :
    Json.Appears default.toJson config p :=
  Json.appears (Format.canonical_of_read h) default.toJson p

/-! ## Laying one value over another -/

/-- **Overrides are deep and exact.** At every path the result has what the path law says, laying
the same value over it again changes nothing, and a partial configuration decides its own fields. -/
theorem overrides_exactly (base top : Json.Tree) (hstem : s.aliasStem ≠ "") (format : Format)
    (K : Finset Field) :
    (∀ p, Json.Appears base.value top.value p) ∧
      Json.merge (Json.merge base.value top.value) top.value =
        Json.merge base.value top.value ∧
      configured format (s.only K) = .ok (s.chosen K) := by
  refine ⟨?_, ?_, ?_⟩
  · exact Json.appears top.canonical base.value
  · exact Json.merge_merge base.canonical top.canonical
  · exact configured_only format hstem K

/-- Settings that differ from the default ones in every field. -/
def sampleSettings : Settings where
  debug := false
  logLevel := "trace"
  aliasStem := "row"
  parameterStyle := .named
  extra := .collect [("tags", .object [("a", .null)]), ("limit", .int 10)]

def sampleBelow : Json.Tree where
  value := .object [("a", .object [("b", .int 1), ("c", .int 2)]), ("d", .int 3)]
  canonical := by
    refine ⟨by decide +kernel, ⟨by decide +kernel, ?_⟩, ?_⟩
    · exact ⟨trivial, trivial, trivial⟩
    · exact ⟨trivial, trivial⟩

def sampleAbove : Json.Tree where
  value := .object [("a", .object [("b", .int 10)]), ("e", .object [])]
  canonical := by
    refine ⟨by decide +kernel, ⟨by decide +kernel, ?_⟩, ⟨by decide +kernel, ?_⟩, ?_⟩
    · exact ⟨trivial, trivial⟩
    · exact trivial
    · exact trivial

theorem sampleSettings_overrides :
    sampleSettings.aliasStem ≠ "" ∧
      (Json.merge sampleBelow.value sampleAbove.value).at? ["a", "b"] = some (.int 10) ∧
      Json.merge (Json.merge sampleBelow.value sampleAbove.value) sampleAbove.value =
        Json.merge sampleBelow.value sampleAbove.value ∧
      configured .toml (sampleSettings.only {.aliasStem, .extra}) =
        .ok ⟨true, "info", "row", .positional, sampleSettings.extra⟩ := by
  have hstem : sampleSettings.aliasStem ≠ "" := by decide +kernel
  obtain ⟨happears, hagain, hpart⟩ :=
    overrides_exactly sampleBelow sampleAbove hstem .toml {.aliasStem, .extra}
  have hsettled : Json.Settled sampleBelow.value sampleAbove.value ["a", "b"] := by
    refine ⟨["a", "b"], List.prefix_rfl, .int 10, rfl, ?_⟩
    rintro ⟨hobject, -⟩
    cases hobject
  exact ⟨hstem, (happears ["a", "b"]).settled hsettled, hagain, hpart⟩

end Settings

end PathQuery
