import MeshTasks.Structured.Datum
import MeshTasks.Settings.Basic

/-!
# Forms of settings

Every setting may be left out; a record with any other field is no settings.
-/

namespace MeshTasks

namespace Settings

/-- The names of the settings, in the order of their fields. -/
def names : List String :=
  ["output-group-size", "iterative", "intermediate", "warn-same-unit-modify"]

end Settings

instance : Structured Settings where
  toDatum settings :=
    .record [("output-group-size", toDatum settings.outputGroupSize),
      ("iterative", toDatum settings.iterative),
      ("intermediate", toDatum settings.intermediate),
      ("warn-same-unit-modify", toDatum settings.warnSameUnitModify)]
  ofDatum? datum :=
    if datum.hasOnly Settings.names then
      match datum.fields? Settings.names with
      | some [size, iterative, intermediate, warn] => do
          return {
            outputGroupSize := ← size.orDefault? Settings.standard.outputGroupSize
            iterative := ← iterative.orDefault? Settings.standard.iterative
            intermediate := ← intermediate.orDefault? Settings.standard.intermediate
            warnSameUnitModify := ← warn.orDefault? Settings.standard.warnSameUnitModify }
      | _ => none
    else
      none

end MeshTasks
