import TraceAdapter.Interpretation.Stack

/-!
# The emitted event stream

`readTrace`'s events are the order-preserving image of the raw events under a
per-event map that depends on the open frames only: one event per `OpenFrame`,
`CloseFrame` and `Instruction`, one `Write` per `Write` effect whose location
resolves, and nothing for the rest. The emitted `Write` carries the id of the
innermost frame, which is not the frame a `Local` location names when that
frame is not innermost.
-/

namespace TraceAdapter

open JSONTraceEvent

/-- The events the per-event map gives a raw event when the open frames are `stack`. -/
def eventImage (stack : List Int) (event : JSONTraceEvent) : List TraceEvent :=
  match event.view with
  | .openFrame frame =>
    [.OpenFrame frame.frame_id frame.function_name ⟨frame.module.address, frame.module.name⟩
      (frame.locals_types.map (·.type_))
      (frame.parameters.map fun value => .Runtime (traceValueFromJSON value.RuntimeValue.value))]
  | .closeFrame frame_id => [.CloseFrame frame_id]
  | .instruction pc => [.Instruction pc]
  | .effect effect =>
    match effect.Write with
    | some write =>
      match write.location.resolve stack.head? with
      | some (_, localIndex) =>
        [.Effect (.Write (.Local stack.head? localIndex)
          (.Runtime (traceValueFromJSON write.root_value_after_write.RuntimeValue.value)))]
      | none => []
    | none => []
  | .ignored => []

/-- The frame entries and exits of an output stream, with their ids. -/
def TraceEvent.frameMarker : TraceEvent → Option (Bool × Int)
  | .OpenFrame id .. => some (true, id)
  | .CloseFrame id => some (false, id)
  | _ => none

/-- The frame entries and exits of a raw trace, with their ids. -/
def JSONTraceEvent.frameMarker (event : JSONTraceEvent) : Option (Bool × Int) :=
  match event.view with
  | .openFrame frame => some (true, frame.frame_id)
  | .closeFrame frame_id => some (false, frame_id)
  | _ => none

/-- One step appends the image of its event. -/
theorem TraceState.step_events (frameLifetime : Int) (s : TraceState) (event : JSONTraceEvent) :
    (s.step frameLifetime event).events = s.events ++ eventImage s.frameIDs event := by
  unfold eventImage
  cases hv : event.view with
  | effect effect =>
    simp only [TraceState.step, JSONTraceEvent.branch_eq_view, hv, TraceState.effect_eq, JSONTraceEffect.location?]
    rcases hw : effect.Write with _ | write
    · rcases effect.Read with _ | read
      · simp
      · simp only [Option.some_bind]
        cases read.location.resolve s.frameIDs.head? <;> simp
    · simp only [Option.some_bind]
      cases write.location.resolve s.frameIDs.head? <;> simp
  | _ => simp [TraceState.step, hv, TraceState.openFrame, TraceState.closeFrame,
      TraceState.instruction]

theorem TraceState.run_events (frameLifetime : Int) (s : TraceState)
    (events : List JSONTraceEvent) :
    (s.run frameLifetime events).events =
      s.events ++ (annotate s.frameIDs events).flatMap fun p => eventImage p.1 p.2 := by
  induction events generalizing s with
  | nil => simp
  | cons event events ih =>
    simp [ih, TraceState.step_events, annotate, List.append_assoc]

/-- The image of an event has exactly its frame entry or exit. -/
theorem filterMap_frameMarker_eventImage (stack : List Int) (event : JSONTraceEvent) :
    (eventImage stack event).filterMap TraceEvent.frameMarker = event.frameMarker.toList := by
  unfold eventImage JSONTraceEvent.frameMarker
  cases event.view with
  | effect effect =>
    dsimp only
    split
    · split <;> rfl
    · rfl
  | _ => rfl

/-- `readTrace`'s events are the images of the raw events, each at the open frames before it. -/
theorem readTrace_events_eq_flatMap (frameLifetime : Int) (events : List JSONTraceEvent) :
    (readTrace frameLifetime ⟨events⟩).events =
      (annotate [] events).flatMap fun p => eventImage p.1 p.2 :=
  TraceState.run_events frameLifetime TraceState.init events

/-- The frame entries and exits `readTrace` emits are those of the raw trace. -/
theorem readTrace_frameMarkers (frameLifetime : Int) (events : List JSONTraceEvent) :
    (readTrace frameLifetime ⟨events⟩).events.filterMap TraceEvent.frameMarker =
      events.filterMap JSONTraceEvent.frameMarker := by
  rw [readTrace_events_eq_flatMap, List.filterMap_flatMap]
  simp only [filterMap_frameMarker_eventImage]
  conv_rhs => rw [← map_snd_annotate [] events]
  induction annotate [] events with
  | nil => rfl
  | cons p ps ih => simp [ih, List.filterMap_cons]; cases p.2.frameMarker <;> rfl

/-- `readTrace`'s events are the image of the raw events, each under the per-event map at
the open frames before it; hence its frame entries and exits are those of the raw trace, in
the same order, with the same ids. -/
theorem readTrace_events (frameLifetime : Int) (events : List JSONTraceEvent) :
    (readTrace frameLifetime ⟨events⟩).events =
      (annotate [] events).flatMap (fun p => eventImage p.1 p.2) ∧
    (readTrace frameLifetime ⟨events⟩).events.filterMap TraceEvent.frameMarker =
      events.filterMap JSONTraceEvent.frameMarker :=
  ⟨readTrace_events_eq_flatMap frameLifetime events, readTrace_frameMarkers frameLifetime events⟩

/-- An `Effect` that resolves to no local (one with neither `Write` nor `Read`, or an
`Indexed` location into a frame other than the innermost one) leaves the whole state as it
was. -/
theorem TraceState.step_of_access?_eq_none (frameLifetime : Int) {s : TraceState}
    {event : JSONTraceEvent} {effect : JSONTraceEffect} (hv : event.view = .effect effect)
    (h : event.access? s.frameIDs = none) : s.step frameLifetime event = s := by
  simp only [access?, hv] at h
  simp only [TraceState.step, JSONTraceEvent.branch_eq_view, hv, TraceState.effect_eq, h]

/-- Dropping an `Effect` that resolves to no local from a trace changes neither the events nor
the lifetime table `readTrace` returns. -/
theorem readTrace_drop_unresolved_effect (frameLifetime : Int)
    {before after : List JSONTraceEvent} {event : JSONTraceEvent} {effect : JSONTraceEffect}
    (hv : event.view = .effect effect) (h : event.access? (frameStack [] before) = none) :
    readTrace frameLifetime ⟨before ++ event :: after⟩ =
      readTrace frameLifetime ⟨before ++ after⟩ := by
  have hstep := TraceState.step_of_access?_eq_none frameLifetime (s := TraceState.init.run
    frameLifetime before) hv (by rwa [TraceState.run_frameIDs])
  simp only [readTrace, TraceState.run_append, TraceState.run_cons, hstep]

/-- A `Write` through an `Indexed` location into the caller's local, while the callee is
innermost, is dropped: the trace reads as if it were not there. -/
theorem readTrace_drop_unresolved_effect_indexed :
    readTrace (-1) ⟨[openFrameOf 1 [42], openFrameOf 2 []] ++ writeOf (.Indexed 1 0) 7 ::
        [instructionAt 3, closeFrameOf 2, closeFrameOf 1]⟩ =
      readTrace (-1) ⟨[openFrameOf 1 [42], openFrameOf 2 []] ++
        [instructionAt 3, closeFrameOf 2, closeFrameOf 1]⟩ :=
  @readTrace_drop_unresolved_effect (-1) [openFrameOf 1 [42], openFrameOf 2 []]
    [instructionAt 3, closeFrameOf 2, closeFrameOf 1] (writeOf (.Indexed 1 0) 7) _ rfl
    (by decide)

/-- A `Write` into a local of a caller, through a reference, is emitted with the innermost
frame's id: here frame `2`'s, while it refreshes the lifetime of local `0` of frame `1`. -/
theorem readTrace_write_to_caller_local :
    (readTrace (-1) ⟨[openFrameOf 1 [42], instructionAt 0, openFrameOf 2 [],
        writeOf (.Local 1 0) 7]⟩).events.getLast? =
      some (.Effect (.Write (.Local (some 2) 0) (.Runtime (.string "7")))) ∧
    (readTrace (-1) ⟨[openFrameOf 1 [42], instructionAt 0, openFrameOf 2 [],
        writeOf (.Local 1 0) 7]⟩).localLifetimeEnds (some 1) = some [some (-1)] ∧
    (readTrace (-1) ⟨[openFrameOf 1 [42], instructionAt 0, openFrameOf 2 [],
        writeOf (.Local 1 0) 7]⟩).localLifetimeEnds (some 2) = some [] :=
  ⟨rfl, by decide, by decide⟩

end TraceAdapter
