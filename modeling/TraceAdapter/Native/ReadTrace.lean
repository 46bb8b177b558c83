import TraceAdapter.Native.Lifetime
import TraceAdapter.Native.Value

/-!
# The trace reader

`readTrace` walks the events of a parsed trace file once, in file order. Its
local variables form a `TraceState` and each event is one `TraceState.step`,
which dispatches to the branch the event's first tag selects. Reading the file
and `JSON.parse` are not modelled: the reader starts from the parsed root
object.
-/

namespace TraceAdapter

/-- The variables of the walk in `readTrace`. -/
structure TraceState where
  /-- `events`: the events emitted so far, in order. -/
  events : List TraceEvent
  /-- `localLifetimeEnds`. -/
  localLifetimeEnds : LifetimeTable
  /-- `locaLifetimeEndsMax`: the largest end of lifetime stored so far for each local. -/
  locaLifetimeEndsMax : LifetimeTable
  /-- `frameIDs`, the open frames, innermost first. -/
  frameIDs : List Int

/-- The state before the first event. -/
def TraceState.init : TraceState := ⟨[], fun _ => none, fun _ => none, []⟩

namespace TraceState

variable (frameLifetime : Int)

/-- The `OpenFrame` branch. The parameter loop, whose test `if (value)` holds for every
parameter of the schema, is the two maps and `Sparse.fill`. -/
def openFrame (s : TraceState) (frame : JSONTraceFrame) : TraceState :=
  let localsTypes := frame.locals_types.map (·.type_)
  let paramValues := frame.parameters.map fun value =>
    TraceValue.Runtime (traceValueFromJSON value.RuntimeValue.value)
  let lifetimeEnds := Sparse.fill (lifetimeRow s.localLifetimeEnds (some frame.frame_id))
    frame.parameters.length frameLifetime
  { s with
    events := s.events ++ [.OpenFrame frame.frame_id frame.function_name
      ⟨frame.module.address, frame.module.name⟩ localsTypes paramValues]
    localLifetimeEnds := Function.update s.localLifetimeEnds (some frame.frame_id)
      (some lifetimeEnds)
    frameIDs := frame.frame_id :: s.frameIDs }

/-- The `CloseFrame` branch. -/
def closeFrame (s : TraceState) (frame_id : Int) : TraceState :=
  { s with events := s.events ++ [.CloseFrame frame_id], frameIDs := s.frameIDs.tail }

/-- The `Instruction` branch: the loop over the locals of the current frame. -/
def instruction (s : TraceState) (pc : Int) : TraceState :=
  let currentFrameID := s.frameIDs.head?
  let tables := updateLifetimeEnds frameLifetime pc
    (lifetimeRow s.localLifetimeEnds currentFrameID)
    (lifetimeRow s.locaLifetimeEndsMax currentFrameID)
  { s with
    events := s.events ++ [.Instruction pc]
    localLifetimeEnds := Function.update s.localLifetimeEnds currentFrameID (some tables.1)
    locaLifetimeEndsMax := Function.update s.locaLifetimeEndsMax currentFrameID
      (some tables.2) }

/-- The `Effect` branch: a `Write` or `Read` refreshes the lifetime of its location, and a
resolved `Write` is emitted with the current frame's id. -/
def effect (s : TraceState) (effect : JSONTraceEffect) : TraceState :=
  match effect.location? with
  | none => s
  | some location =>
    let currentFrameID := s.frameIDs.head?
    let (localIndex, localLifetimeEnds) :=
      processJSONLocation frameLifetime location s.localLifetimeEnds currentFrameID
    match localIndex, effect.Write with
    | some localIndex, some write =>
      { s with
        localLifetimeEnds
        events := s.events ++ [.Effect (.Write (.Local currentFrameID localIndex)
          (.Runtime (traceValueFromJSON write.root_value_after_write.RuntimeValue.value)))] }
    | _, _ => { s with localLifetimeEnds }

/-- One iteration of the loop of `readTrace`. -/
def step (s : TraceState) (event : JSONTraceEvent) : TraceState :=
  match event.branch with
  | .openFrame frame => s.openFrame frameLifetime frame
  | .closeFrame frame_id => s.closeFrame frame_id
  | .instruction pc => s.instruction frameLifetime pc
  | .effect effect => s.effect frameLifetime effect
  | .ignored => s

/-- The walk over a list of events. -/
def run (s : TraceState) (events : List JSONTraceEvent) : TraceState :=
  events.foldl (step frameLifetime) s

@[simp] theorem openFrame_frameIDs (s : TraceState) (frame : JSONTraceFrame) :
    (s.openFrame frameLifetime frame).frameIDs = frame.frame_id :: s.frameIDs := rfl

@[simp] theorem closeFrame_frameIDs (s : TraceState) (frame_id : Int) :
    (s.closeFrame frame_id).frameIDs = s.frameIDs.tail := rfl

@[simp] theorem instruction_frameIDs (s : TraceState) (pc : Int) :
    (s.instruction frameLifetime pc).frameIDs = s.frameIDs := rfl

/-- The `Effect` branch marks live the local its location resolves to, and emits a `Write`
for a resolved `Write` effect. -/
theorem effect_eq (s : TraceState) (e : JSONTraceEffect) :
    s.effect frameLifetime e =
      match e.location?.bind fun location => location.resolve s.frameIDs.head? with
      | none => s
      | some (frameId, localIndex) =>
        { s with
          localLifetimeEnds := markLive frameLifetime s.localLifetimeEnds frameId localIndex
          events := s.events ++ match e.Write with
            | some write => [.Effect (.Write (.Local s.frameIDs.head? localIndex)
                (.Runtime (traceValueFromJSON write.root_value_after_write.RuntimeValue.value)))]
            | none => [] } := by
  unfold effect
  cases e.location? with
  | none => rfl
  | some location =>
    simp only [Option.some_bind, processJSONLocation_eq]
    cases location.resolve s.frameIDs.head? with
    | none => rfl
    | some p => cases e.Write <;> simp

@[simp] theorem effect_frameIDs (s : TraceState) (e : JSONTraceEffect) :
    (s.effect frameLifetime e).frameIDs = s.frameIDs := by
  rw [effect_eq]
  split <;> rfl

@[simp] theorem run_nil (s : TraceState) : s.run frameLifetime [] = s := rfl

@[simp] theorem run_cons (s : TraceState) (event : JSONTraceEvent)
    (events : List JSONTraceEvent) :
    s.run frameLifetime (event :: events) = (s.step frameLifetime event).run frameLifetime events :=
  rfl

theorem run_append (s : TraceState) (before after : List JSONTraceEvent) :
    s.run frameLifetime (before ++ after) =
      (s.run frameLifetime before).run frameLifetime after :=
  List.foldl_append _ _ _ _

end TraceState

/-- `readTrace`, from the parsed trace file. -/
def readTrace (frameLifetime : Int) (traceJSON : JSONTraceRootObject) : ITrace :=
  let s := TraceState.init.run frameLifetime traceJSON.events
  { events := s.events, localLifetimeEnds := s.localLifetimeEnds }

end TraceAdapter
