import PathQuery.Json.Basic

/-!
# Laying one JSON value over another

`Json.merge base top` keeps `top` wherever it says something: two objects are merged member by
member, and in every other case the value laid over replaces the one below.
-/

namespace PathQuery.Json

mutual

/-- The first value with the second one laid over it. -/
def merge (base : Json) : Json → Json
  | .object top =>
    match base with
    | .object members => .object (mergeMembers members top)
    | _ => .object top
  | top => top

/-- The members of an object with those of another one laid over them, one after the other. -/
def mergeMembers (base : List (String × Json)) :
    List (String × Json) → List (String × Json)
  | [] => base
  | (name, top) :: rest =>
    let value := match lookup name base with
      | some below => merge below top
      | none => top
    mergeMembers (insert name value base) rest

end

end PathQuery.Json
