import TraceAdapter.Core.JsObject
import TraceAdapter.Native.Schema

/-!
# Decoding trace values

`traceValueFromJSON` renders every scalar as the text `String` gives it (a number
through `Number::toString`) and keeps arrays and compounds as they are, the fields of a compound in `Object.entries` order. The
recursion through arrays and fields is written as two helpers, so that it is
structural.
-/

namespace TraceAdapter

mutual

/-- `traceValueFromJSON`. A compound's fields are decoded before `Object.entries` orders
them; `traceValueFromJSON_compound` is the source's order of the two steps. -/
def traceValueFromJSON : JSONTraceValueType → RuntimeValueType
  | .boolean b => .string (toString b)
  | .number x => .string (numberToString x)
  | .string s => .string s
  | .array items => .array (traceValuesFromJSON items)
  | .compound fields type variant_name variant_tag =>
    .compound (objectEntries (traceFieldsFromJSON fields)) type variant_name variant_tag

/-- `value.map(item => traceValueFromJSON(item))`. -/
def traceValuesFromJSON : List JSONTraceValueType → List RuntimeValueType
  | [] => []
  | item :: items => traceValueFromJSON item :: traceValuesFromJSON items

/-- The members of a compound's `fields`, each value decoded. -/
def traceFieldsFromJSON : List (String × JSONTraceValueType) → List (String × RuntimeValueType)
  | [] => []
  | (key, value) :: fields => (key, traceValueFromJSON value) :: traceFieldsFromJSON fields

end

@[simp] theorem traceValuesFromJSON_eq_map (items : List JSONTraceValueType) :
    traceValuesFromJSON items = items.map traceValueFromJSON := by
  induction items with
  | nil => simp [traceValuesFromJSON]
  | cons item items ih => simp [traceValuesFromJSON, ih]

@[simp] theorem traceFieldsFromJSON_eq_mapValues (fields : List (String × JSONTraceValueType)) :
    traceFieldsFromJSON fields = mapValues traceValueFromJSON fields := by
  induction fields with
  | nil => simp [traceFieldsFromJSON]
  | cons field fields ih => simp [traceFieldsFromJSON, ih]

/-- A compound decodes as in the source: `Object.entries(value.fields)`, then each value. -/
theorem traceValueFromJSON_compound (fields : List (String × JSONTraceValueType)) (type : String)
    (variant_name : Option String) (variant_tag : Option Int) :
    traceValueFromJSON (.compound fields type variant_name variant_tag) =
      .compound (mapValues traceValueFromJSON (objectEntries fields)) type variant_name
        variant_tag := by
  rw [traceValueFromJSON, traceFieldsFromJSON_eq_mapValues, objectEntries_mapValues]

end TraceAdapter
