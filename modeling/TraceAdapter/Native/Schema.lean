import TraceAdapter.Core.JsNumber

/-!
# The trace file schema and the reader's output types

The raw types are the parsed JSON of a Move VM trace file, restricted to the
fields the trace reader reads. A JSON object with optional keys is a structure
of `Option` fields. A JSON number in a value, which the reader renders as text,
is the double `JSON.parse` reads it as; a JSON number the reader only compares
or passes on (a pc, a frame id, a local index, a variant tag) is an integer.
The output types are the events and lifetime table that `readTrace` returns.
-/

namespace TraceAdapter

/-- `JSONTraceModule`. -/
structure JSONTraceModule where
  address : String
  name : String

/-- `JSONTraceType`; the reader reads `type_` only. -/
structure JSONTraceType where
  type_ : String

/-- `JSONTraceValueType`. A number is the double `JSON.parse` reads; the fields of a compound are
the members of a JSON object, in document order. -/
inductive JSONTraceValueType where
  | boolean (b : Bool)
  | number (x : JsNumber)
  | string (s : String)
  | array (items : List JSONTraceValueType)
  | compound (fields : List (String × JSONTraceValueType)) (type : String)
      (variant_name : Option String) (variant_tag : Option Int)

/-- `JSONTraceRuntimeValue`. -/
structure JSONTraceRuntimeValue where
  value : JSONTraceValueType

/-- `JSONTraceValue`. -/
structure JSONTraceValue where
  RuntimeValue : JSONTraceRuntimeValue

/-- `JSONTraceFrame`, with the fields the reader reads. -/
structure JSONTraceFrame where
  frame_id : Int
  function_name : String
  locals_types : List JSONTraceType
  module : JSONTraceModule
  parameters : List JSONTraceValue

/-- `JSONTraceOpenFrame`; the reader reads `frame` only. -/
structure JSONTraceOpenFrame where
  frame : JSONTraceFrame

/-- `JSONTraceInstruction`; the reader reads `pc` only. -/
structure JSONTraceInstruction where
  pc : Int

/-- `JSONTraceLocation`: `{Local: [frameId, localIndex]}`, or an `Indexed` location of which
the reader reads the base `{Local: [frameId, localIndex]}` only. -/
inductive JSONTraceLocation where
  | Local (frameId : Int) (localIndex : Nat)
  | Indexed (frameId : Int) (localIndex : Nat)

/-- `JSONTraceWriteEffect`. -/
structure JSONTraceWriteEffect where
  location : JSONTraceLocation
  root_value_after_write : JSONTraceValue

/-- `JSONTraceReadEffect`; the reader reads `location` only. -/
structure JSONTraceReadEffect where
  location : JSONTraceLocation

/-- `JSONTraceEffect`; the reader never reads its `Push` and `Pop` members. -/
structure JSONTraceEffect where
  Write : Option JSONTraceWriteEffect := none
  Read : Option JSONTraceReadEffect := none

/-- `JSONTraceCloseFrame`; the reader reads `frame_id` only. -/
structure JSONTraceCloseFrame where
  frame_id : Int

/-- `JSONTraceEvent`: each tag is optional, as in the schema. -/
structure JSONTraceEvent where
  OpenFrame : Option JSONTraceOpenFrame := none
  Instruction : Option JSONTraceInstruction := none
  Effect : Option JSONTraceEffect := none
  CloseFrame : Option JSONTraceCloseFrame := none

/-- `JSONTraceRootObject`; the reader never reads `version`. -/
structure JSONTraceRootObject where
  events : List JSONTraceEvent

/-- Modelled from the spec: `ModuleInfo` of `utils.ts`, absent from the sources, with the
two fields the reader fills. -/
structure ModuleInfo where
  addr : String
  name : String

/-- Modelled from the spec: `RuntimeValueType` of `runtime.ts`, absent from the sources:
a string, an array, or a compound value (`IRuntimeCompundValue`) with its fields in order,
its type name and, for an enum value, its variant. -/
inductive RuntimeValueType where
  | string (s : String)
  | array (items : List RuntimeValueType)
  | compound (fields : List (String × RuntimeValueType)) (type : String)
      (variantName : Option String) (variantTag : Option Int)

/-- `TraceValue`. -/
inductive TraceValue where
  | Runtime (value : RuntimeValueType)

/-- `TraceLocation`. The frame id is the top of the frame stack, `undefined` on an empty
stack. -/
inductive TraceLocation where
  | Local (frameId : Option Int) (localIndex : Nat)

/-- `EventEffect`. -/
inductive EventEffect where
  | Write (location : TraceLocation) (value : TraceValue)

/-- `TraceEvent`. -/
inductive TraceEvent where
  | OpenFrame (id : Int) (name : String) (modInfo : ModuleInfo) (localsTypes : List String)
      (paramValues : List TraceValue)
  | CloseFrame (id : Int)
  | Instruction (pc : Int)
  | Effect (effect : EventEffect)

/-- A lifetime table, `Map<number, number[]>`. The key is an `Option Int` because the reader
also stores under `frameIDs[frameIDs.length - 1]`, which is `undefined` on an empty stack. -/
abbrev LifetimeTable := Option Int → Option (List (Option Int))

/-- `ITrace`. -/
structure ITrace where
  events : List TraceEvent
  localLifetimeEnds : LifetimeTable

/-- The branch of `readTrace` an event takes. -/
inductive EventView where
  | openFrame (frame : JSONTraceFrame)
  | closeFrame (frame_id : Int)
  | instruction (pc : Int)
  | effect (effect : JSONTraceEffect)
  | ignored

/-- The branch of `readTrace` an event takes, in the order of its if/else-if chain on
`event.OpenFrame`, `event.CloseFrame`, `event.Instruction` and `event.Effect`; an event with
none of the four is skipped. -/
def JSONTraceEvent.branch (event : JSONTraceEvent) : EventView :=
  match event.OpenFrame, event.CloseFrame, event.Instruction, event.Effect with
  | some openFrame, _, _, _ => .openFrame openFrame.frame
  | none, some closeFrame, _, _ => .closeFrame closeFrame.frame_id
  | none, none, some instruction, _ => .instruction instruction.pc
  | none, none, none, some effect => .effect effect
  | none, none, none, none => .ignored

/-- The location an effect's lifetime bookkeeping reads:
`effect.Write ? effect.Write.location : effect.Read!.location`. -/
def JSONTraceEffect.location? (effect : JSONTraceEffect) : Option JSONTraceLocation :=
  match effect.Write, effect.Read with
  | some write, _ => some write.location
  | none, some read => some read.location
  | none, none => none

end TraceAdapter
