import TraceAdapter.Native.ReadTrace

/-!
# The call stack of a trace

What a raw event is comes from its tags: the VM writes every event with exactly
one, and an event with several is read as the first in the order `OpenFrame`,
`CloseFrame`, `Instruction`, `Effect`. The reader's own if/else-if chain,
`JSONTraceEvent.branch`, reads every event so (`branch_eq_view`), and the
properties classify events through `view` alone.

The open frames before each event are determined by the events alone: an
`OpenFrame` pushes its id and a `CloseFrame` pops. `annotate` pairs every event
with the open frames before it, which is how the lifetime properties speak of
"the innermost open frame at this event". The premises those properties put on
a trace are `WellFormed`.
-/

namespace TraceAdapter

/-- The tags a raw event carries, in the order `OpenFrame`, `CloseFrame`, `Instruction`,
`Effect`. -/
def JSONTraceEvent.tags (event : JSONTraceEvent) : List EventView :=
  (event.OpenFrame.map fun openFrame => .openFrame openFrame.frame).toList ++
    (event.CloseFrame.map fun closeFrame => .closeFrame closeFrame.frame_id).toList ++
    (event.Instruction.map fun instruction => .instruction instruction.pc).toList ++
    (event.Effect.map .effect).toList

/-- What a raw event is: its first tag; an event without tags is nothing. -/
def JSONTraceEvent.view (event : JSONTraceEvent) : EventView := event.tags.headD .ignored

/-- The reader's if/else-if chain takes, for every event, the branch of what the event is. -/
@[simp] theorem JSONTraceEvent.branch_eq_view (event : JSONTraceEvent) :
    event.branch = event.view := by
  rcases event with ⟨_ | _, _ | _, _ | _, _ | _⟩ <;> rfl

/-- The open frames after one event, innermost first. -/
def frameStackStep (stack : List Int) (event : JSONTraceEvent) : List Int :=
  match event.view with
  | .openFrame frame => frame.frame_id :: stack
  | .closeFrame _ => stack.tail
  | _ => stack

/-- The open frames after a list of events. -/
def frameStack (stack : List Int) (events : List JSONTraceEvent) : List Int :=
  events.foldl frameStackStep stack

/-- Every event with the open frames before it. -/
def annotate : List Int → List JSONTraceEvent → List (List Int × JSONTraceEvent)
  | _, [] => []
  | stack, event :: events => (stack, event) :: annotate (frameStackStep stack event) events

/-- The id of the frame an event opens. -/
def JSONTraceEvent.openedFrame? (event : JSONTraceEvent) : Option Int :=
  match event.view with
  | .openFrame frame => some frame.frame_id
  | _ => none

/-- The ids of the frames the events open, in order. -/
def openedFrames (events : List JSONTraceEvent) : List Int :=
  events.filterMap JSONTraceEvent.openedFrame?

/-- The id of the frame an event closes. -/
def JSONTraceEvent.closedFrame? (event : JSONTraceEvent) : Option Int :=
  match event.view with
  | .closeFrame frame_id => some frame_id
  | _ => none

/-- The ids of the frames the events close, in order. -/
def closedFrames (events : List JSONTraceEvent) : List Int :=
  events.filterMap JSONTraceEvent.closedFrame?

/-- Whether an event opens frame `f`. -/
def JSONTraceEvent.opens (event : JSONTraceEvent) (f : Int) : Prop :=
  ∃ frame, event.view = .openFrame frame ∧ frame.frame_id = f

/-- The local `(frameId, localIndex)` a `Read` or `Write` effect resolves to when the open
frames are `stack`; `none` for every other event and for an unresolved location. -/
def JSONTraceEvent.access? (event : JSONTraceEvent) (stack : List Int) : Option (Int × Nat) :=
  match event.view with
  | .effect effect => effect.location?.bind fun location => location.resolve stack.head?
  | _ => none

/-- The frame a location names: its `Local`'s, or its base `Local`'s. -/
def JSONTraceLocation.frameId : JSONTraceLocation → Int
  | .Local frameId _ => frameId
  | .Indexed frameId _ => frameId

/-- The premise on one event, given the open frames before it: a `CloseFrame` closes the
innermost open frame, an `Instruction` or `Effect` happens inside a frame, and the location
of a `Read` or `Write` names an open frame. -/
def EventOk (stack : List Int) (event : JSONTraceEvent) : Prop :=
  match event.view with
  | .closeFrame frame_id => stack.head? = some frame_id
  | .instruction _ => stack ≠ []
  | .effect effect => stack ≠ [] ∧ ∀ location ∈ effect.location?, location.frameId ∈ stack
  | _ => True

/-- `EventOk` at every event, starting from the open frames `stack`. -/
def NestedFrom : List Int → List JSONTraceEvent → Prop
  | _, [] => True
  | stack, event :: events => EventOk stack event ∧ NestedFrom (frameStackStep stack event) events

/-- A well-formed trace: frame ids pairwise distinct, frames properly nested, and every
instruction and effect inside a frame that is open. -/
structure WellFormed (events : List JSONTraceEvent) : Prop where
  distinct : (openedFrames events).Nodup
  nested : NestedFrom [] events

instance (stack : List Int) (event : JSONTraceEvent) : Decidable (EventOk stack event) := by
  unfold EventOk; split <;> infer_instance

instance NestedFrom.decidable :
    (stack : List Int) → (events : List JSONTraceEvent) → Decidable (NestedFrom stack events)
  | _, [] => isTrue trivial
  | stack, event :: events =>
    haveI := NestedFrom.decidable (frameStackStep stack event) events
    inferInstanceAs (Decidable (_ ∧ _))

instance (events : List JSONTraceEvent) : Decidable (WellFormed events) :=
  decidable_of_iff ((openedFrames events).Nodup ∧ NestedFrom [] events)
    ⟨fun h => ⟨h.1, h.2⟩, fun h => ⟨h.1, h.2⟩⟩

@[simp] theorem frameStack_nil (stack : List Int) : frameStack stack [] = stack := rfl

@[simp] theorem frameStack_cons (stack : List Int) (event : JSONTraceEvent)
    (events : List JSONTraceEvent) :
    frameStack stack (event :: events) = frameStack (frameStackStep stack event) events := rfl

theorem frameStack_append (stack : List Int) (before after : List JSONTraceEvent) :
    frameStack stack (before ++ after) = frameStack (frameStack stack before) after :=
  List.foldl_append _ _ _ _

@[simp] theorem annotate_nil (stack : List Int) : annotate stack [] = [] := rfl

@[simp] theorem map_snd_annotate (stack : List Int) (events : List JSONTraceEvent) :
    (annotate stack events).map Prod.snd = events := by
  induction events generalizing stack with
  | nil => rfl
  | cons event events ih => simp [annotate, ih]

/-- The open frames an event is annotated with are those after the events before it. -/
theorem annotate_eq_append_cons {stack : List Int} {events : List JSONTraceEvent}
    {before after : List (List Int × JSONTraceEvent)} {x : List Int × JSONTraceEvent}
    (h : annotate stack events = before ++ x :: after) :
    x.1 = frameStack stack (before.map Prod.snd) := by
  induction before generalizing stack events with
  | nil =>
    cases events with
    | nil => simp [annotate] at h
    | cons event events =>
      simp only [annotate, List.nil_append, List.cons.injEq] at h
      rw [← h.1]
      rfl
  | cons y before ih =>
    cases events with
    | nil => simp [annotate] at h
    | cons event events =>
      simp only [annotate, List.cons_append, List.cons.injEq] at h
      rw [ih h.2, ← h.1]
      rfl

@[simp] theorem openedFrames_nil : openedFrames [] = [] := rfl

theorem openedFrames_cons (event : JSONTraceEvent) (events : List JSONTraceEvent) :
    openedFrames (event :: events) = event.openedFrame?.toList ++ openedFrames events := by
  cases h : event.openedFrame? <;> simp [openedFrames, List.filterMap_cons, h]

@[simp] theorem closedFrames_nil : closedFrames [] = [] := rfl

theorem closedFrames_cons (event : JSONTraceEvent) (events : List JSONTraceEvent) :
    closedFrames (event :: events) = event.closedFrame?.toList ++ closedFrames events := by
  cases h : event.closedFrame? <;> simp [closedFrames, List.filterMap_cons, h]

/-- A frame was opened exactly when some event opens it. -/
theorem mem_openedFrames {events : List JSONTraceEvent} {f : Int} :
    f ∈ openedFrames events ↔ ∃ event ∈ events, event.opens f := by
  simp only [openedFrames, List.mem_filterMap, JSONTraceEvent.openedFrame?, JSONTraceEvent.opens]
  constructor
  · rintro ⟨event, hmem, h⟩
    refine ⟨event, hmem, ?_⟩
    split at h <;> simp_all
  · rintro ⟨event, hmem, frame, hv, rfl⟩
    exact ⟨event, hmem, by simp [hv]⟩

theorem openedFrames_append (before after : List JSONTraceEvent) :
    openedFrames (before ++ after) = openedFrames before ++ openedFrames after :=
  List.filterMap_append _ _ _

theorem nestedFrom_append {stack : List Int} {before after : List JSONTraceEvent} :
    NestedFrom stack (before ++ after) ↔
      NestedFrom stack before ∧ NestedFrom (frameStack stack before) after := by
  induction before generalizing stack with
  | nil => simp [NestedFrom]
  | cons event before ih => simp [NestedFrom, ih, and_assoc]

/-- A frame open after an event was open before it or is the frame the event opens. -/
theorem mem_frameStackStep {stack : List Int} {event : JSONTraceEvent} {f : Int}
    (h : f ∈ frameStackStep stack event) : f ∈ stack ∨ f ∈ event.openedFrame?.toList := by
  unfold frameStackStep at h
  unfold JSONTraceEvent.openedFrame?
  cases hv : event.view <;> simp only [hv, Option.toList, List.mem_singleton] at h ⊢
  · exact (List.mem_cons.1 h).symm
  · exact .inl (List.mem_of_mem_tail h)
  all_goals exact .inl h

/-- A frame is open only if it was open at the start or some event opened it. -/
theorem mem_frameStack {stack : List Int} {events : List JSONTraceEvent} {f : Int}
    (h : f ∈ frameStack stack events) : f ∈ stack ∨ f ∈ openedFrames events := by
  induction events generalizing stack with
  | nil => exact .inl h
  | cons event events ih =>
    rw [openedFrames_cons, List.mem_append, ← or_assoc]
    exact (ih h).imp_left mem_frameStackStep

/-- A frame open at some event of a trace read from no open frame was opened by the trace. -/
theorem mem_openedFrames_of_mem_annotate {events : List JSONTraceEvent}
    {q : List Int × JSONTraceEvent} {f : Int} (hq : q ∈ annotate [] events) (hf : f ∈ q.1) :
    f ∈ openedFrames events := by
  obtain ⟨before, after, hsplit⟩ := List.append_of_mem hq
  have hevents : events = before.map Prod.snd ++ q.2 :: after.map Prod.snd := by
    rw [← map_snd_annotate [] events, hsplit]; simp
  rw [annotate_eq_append_cons hsplit] at hf
  rw [hevents, openedFrames_append]
  exact List.mem_append_left _ ((mem_frameStack hf).resolve_left (List.not_mem_nil f))

/-- Along events that meet their premises, every annotated event meets its premise. -/
theorem eventOk_of_mem_annotate {stack : List Int} {events : List JSONTraceEvent}
    {q : List Int × JSONTraceEvent} (hnested : NestedFrom stack events)
    (hq : q ∈ annotate stack events) : EventOk q.1 q.2 := by
  induction events generalizing stack with
  | nil => simp at hq
  | cons event events ih =>
    simp only [annotate, List.mem_cons] at hq
    rcases hq with rfl | hq
    · exact hnested.1
    · exact ih hnested.2 hq

/-- A resolved location names a local of the frame the location names. -/
theorem JSONTraceLocation.resolve_frameId {location : JSONTraceLocation}
    {currentFrameID : Option Int} {g : Int} {localIndex : Nat}
    (h : location.resolve currentFrameID = some (g, localIndex)) : location.frameId = g := by
  cases location <;> simp_all [resolve, JSONTraceLocation.frameId]

/-- Under the premise on an event, a `Read` or `Write` resolves to a local of an open
frame. -/
theorem access_mem {stack : List Int} {event : JSONTraceEvent} {frameId : Int}
    {localIndex : Nat} (hok : EventOk stack event)
    (h : event.access? stack = some (frameId, localIndex)) : frameId ∈ stack := by
  unfold JSONTraceEvent.access? at h
  unfold EventOk at hok
  cases hv : event.view <;> simp only [hv, reduceCtorEq] at h hok
  obtain ⟨location, hloc, hres⟩ := Option.bind_eq_some.mp h
  exact JSONTraceLocation.resolve_frameId hres ▸ hok.2 location hloc

/-- The reader's `frameIDs` follows the call stack. -/
@[simp] theorem TraceState.step_frameIDs (frameLifetime : Int) (s : TraceState)
    (event : JSONTraceEvent) :
    (s.step frameLifetime event).frameIDs = frameStackStep s.frameIDs event := by
  cases hv : event.view <;> simp [TraceState.step, frameStackStep, hv]

theorem TraceState.run_frameIDs (frameLifetime : Int) (s : TraceState)
    (events : List JSONTraceEvent) :
    (s.run frameLifetime events).frameIDs = frameStack s.frameIDs events := by
  induction events generalizing s with
  | nil => rfl
  | cons event events ih => simp [ih]

/-! ## Raw events of concrete traces -/

namespace JSONTraceEvent

/-- An `OpenFrame` of frame `id`, of a function `f` of module `0x1::m`, whose parameters are
the JSON integers `params`. -/
def openFrameOf (id : Int) (params : List Nat) : JSONTraceEvent :=
  { OpenFrame := some ⟨⟨id, "f", [], ⟨"0x1", "m"⟩, params.map fun n => ⟨⟨.number (.ofNat n)⟩⟩⟩⟩ }

/-- A `CloseFrame` of frame `id`. -/
def closeFrameOf (id : Int) : JSONTraceEvent := { CloseFrame := some ⟨id⟩ }

/-- An `Instruction` at `pc`. -/
def instructionAt (pc : Int) : JSONTraceEvent := { Instruction := some ⟨pc⟩ }

/-- A `Write` of the JSON integer `value` to `location`. -/
def writeOf (location : JSONTraceLocation) (value : Nat) : JSONTraceEvent :=
  { Effect := some { Write := some ⟨location, ⟨⟨.number (.ofNat value)⟩⟩⟩ } }

/-- A `Read` of `location`. -/
def readOf (location : JSONTraceLocation) : JSONTraceEvent :=
  { Effect := some { Read := some ⟨location⟩ } }

end JSONTraceEvent

end TraceAdapter
