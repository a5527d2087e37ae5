/-!
Row payloads and the merge of a partial write into the stored row
(`sdk/src/merge.mjs`). A payload is a JSON value; `undefined` is not one, so
the clause of `deepMerge` that skips it has nothing to skip here.
-/

namespace ZedSync

inductive Json where
  | null
  | bool (value : Bool)
  | num (value : Rat)
  | str (value : String)
  | arr (items : List Json)
  | obj (fields : List (String × Json))
  deriving Repr, Inhabited

namespace Json

/-- JavaScript truthiness. -/
def truthy : Json → Bool
  | .null => false
  | .bool value => value
  | .num value => value != 0
  | .str value => value != ""
  | .arr _ | .obj _ => true

/-- An own property, as `out[key]` reads it. -/
def lookup (key : String) : List (String × Json) → Option Json
  | [] => none
  | (name, value) :: rest => if name = key then some value else lookup key rest

/-- `out[key] = value`: replaces in place, else adds at the end. -/
def assign (key : String) (value : Json) : List (String × Json) → List (String × Json)
  | [] => [(key, value)]
  | (name, old) :: rest =>
      if name = key then (key, value) :: rest else (name, old) :: assign key value rest

end Json

def pollutingKeys : List String := ["__proto__", "constructor", "prototype"]

def maxDepth : Nat := 64

/-- `deepMerge` with the levels of nesting left before the cap. Beyond the cap,
and wherever either side is not a plain object, the patch replaces. -/
def deepMergeWithin : Nat → Option Json → Json → Json
  | levels + 1, some (.obj base), .obj patch =>
      .obj (patch.foldl (fun out entry =>
        if pollutingKeys.contains entry.1 then out
        else Json.assign entry.1
          (deepMergeWithin levels (Json.lookup entry.1 out) entry.2) out) base)
  | _, _, patch => patch

def deepMerge (base patch : Json) : Json := deepMergeWithin maxDepth (some base) patch

end ZedSync
