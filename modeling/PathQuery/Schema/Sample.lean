import PathQuery.Schema.Registry

/-!
# A sample domain

Persons live in towns of countries and own cars; an address is embedded in a person.
-/

namespace PathQuery.Sample

private def scalar (name type : String) : Property := ⟨name, .scalar type⟩

private def reference (name target : String) : Property := ⟨name, .reference target⟩

def person : MappedType :=
  .entity "Person" (some "id")
    [scalar "id" "i64", scalar "name" "String", scalar "age" "i32", reference "town" "Town",
      ⟨"cars", .collection "Car"⟩, ⟨"address", .embedded "Address"⟩]

def town : MappedType :=
  .entity "Town" (some "id")
    [scalar "id" "i64", scalar "name" "String", reference "country" "Country",
      reference "mayor" "Person"]

def car : MappedType :=
  .entity "Car" (some "id")
    [scalar "id" "i64", scalar "model" "String", scalar "price" "f64",
      reference "owner" "Person"]

/-- A country is identified by its code and has a name of its own in texts. -/
def country : MappedType :=
  { MappedType.entity "Country" (some "code") [scalar "code" "String", scalar "name" "String"] with
    entityName := "CountryEntity" }

def address : MappedType :=
  .embeddable "Address"
    [scalar "street" "String", scalar "city" "String", reference "country" "Country"]

/-- The registry with every type of the sample. -/
def registry : Registry := .ofList [person, town, car, country, address]

example : registry.size = 5 := by decide +kernel
example : registry.entityName? "Country" = some "CountryEntity" := by decide +kernel
example : registry.resolve? "Person" "cars" = some ⟨"Car", true⟩ := by decide +kernel

end PathQuery.Sample
