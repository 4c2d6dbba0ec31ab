/-
Options of an accumulator.

They say how the work may be spread over threads and have no influence on any result
(`Accumulator.merge_eq_mergeBy`). As JSON they are an object whose fields may be missing, or an
array of the first of them; a missing field has its default value.
-/
import RenderFold.Json.Stored
import RenderFold.MergeError

namespace RenderFold

/-- How the work of a merge may be spread. -/
structure Options where
  /-- Whether several threads may be used. -/
  parallel : Bool
  /-- The number of threads, if it is not left open. -/
  threads : Option UInt64
  /-- The least number of tiles handed to one thread at a time. -/
  grain : UInt64
deriving DecidableEq, Repr

namespace Options

/-- Any number of threads. -/
def default : Options := ⟨true, none, 64⟩

instance : Inhabited Options := ⟨default⟩

def sequential : Options := { default with parallel := false }

def validate (o : Options) : Except MergeError Unit :=
  if o.threads = some 0 then .error (.invalid .noThreads) else .ok ()

def fieldNames : List String := ["parallel", "threads", "tile_grain"]

def countOfJson? (j : Json) : Option UInt64 := (j.asNatBelow? range64).map UInt64.ofNat

/-- A thread count, which may be left open. -/
def threadsOfJson? : Json → Option (Option UInt64)
  | .null => some none
  | j => (countOfJson? j).map some

/-- The value of a field, the default value if it is missing. -/
def fieldOr {α : Type} (read : Json → Option α) (otherwise : α) : Option Json → Option α
  | none => some otherwise
  | some j => read j

def ofJson? (j : Json) : Option Options := do
  match ← j.fields? fieldNames with
  | [parallel, threads, grain] =>
      return ⟨← fieldOr Json.asBool? default.parallel parallel,
        ← fieldOr threadsOfJson? default.threads threads,
        ← fieldOr countOfJson? default.grain grain⟩
  | _ => none

/-- The acceptable options that a text describes. -/
def ofText (text : String) : Except MergeError Options := do
  match (Json.parse? text).bind ofJson? with
  | none => throw (.invalid .optionsText)
  | some options =>
      options.validate
      return options

/-- A thread count, null if it is left open. -/
def threadsText : Option UInt64 → String
  | none => "null"
  | some n => toString n

def toJsonText (o : Options) : String :=
  Json.written
    [Json.member "parallel" (Json.boolText o.parallel),
      Json.member "threads" (threadsText o.threads),
      Json.member "tile_grain" (toString o.grain)]

end Options

end RenderFold
