import TraceAdapter.Correctness.Events
import TraceAdapter.Correctness.Locality

/-!
# The reader's call stack

`readTrace` pops `frameIDs` at a `CloseFrame` without reading its id. On a
well-formed trace, where every `CloseFrame` names the innermost frame, `frameIDs`
is after every prefix the frames the prefix opened and did not close, most
recent first. Two consequences: a trace that closes every frame it opens is read
to as many `OpenFrame` events as `CloseFrame` events, and a frame's row in the
lifetime table is final at its `CloseFrame`.
-/

namespace TraceAdapter

open JSONTraceEvent

/-- The frames of `opened` that are not in `closed`, most recent first. -/
def unclosedFrames (opened closed : List Int) : List Int :=
  (opened.filter fun f => f ∉ closed).reverse

/-- Whether an output event is an `OpenFrame`. -/
def TraceEvent.isOpenFrame : TraceEvent → Bool
  | .OpenFrame .. => true
  | _ => false

/-- Whether an output event is a `CloseFrame`. -/
def TraceEvent.isCloseFrame : TraceEvent → Bool
  | .CloseFrame _ => true
  | _ => false

/-! ## The stack is the unclosed frames -/

/-- The call-stack invariant after a prefix that opened the frames `opened` and closed the
frames `closed`: every closed frame was opened, and `stack` holds the unclosed ones. -/
structure StackInv (stack opened closed : List Int) : Prop where
  closed_subset : ∀ f ∈ closed, f ∈ opened
  stack_eq : stack = unclosedFrames opened closed

theorem stackInv_nil : StackInv [] [] [] := ⟨by simp, rfl⟩

/-- Closing the most recently opened unclosed frame leaves the others. -/
theorem unclosedFrames_close {opened closed rest : List Int} {c : Int} (hnodup : opened.Nodup)
    (h : unclosedFrames opened closed = c :: rest) :
    unclosedFrames opened (closed ++ [c]) = rest := by
  have hc : c ∉ rest := by
    have hnodup' := List.nodup_reverse.2 (hnodup.filter fun f => f ∉ closed)
    rw [← unclosedFrames, h] at hnodup'
    exact (List.nodup_cons.1 hnodup').1
  calc unclosedFrames opened (closed ++ [c])
      = ((opened.filter fun f => f ∉ closed).filter fun f => f ≠ c).reverse := by
        simp [unclosedFrames, List.filter_filter, and_comm]
    _ = (c :: rest).filter fun f => f ≠ c := by rw [← List.filter_reverse]; exact congrArg _ h
    _ = rest := by
        rw [List.filter_cons_of_neg (by simp), List.filter_eq_self]
        exact fun f hf => by simpa using ne_of_mem_of_not_mem hf hc

/-- One event keeps the invariant when it meets its premise and opens no frame twice. -/
theorem StackInv.step {stack opened closed : List Int} {event : JSONTraceEvent}
    (hinv : StackInv stack opened closed) (hok : EventOk stack event)
    (hnodup : (opened ++ event.openedFrame?.toList).Nodup) :
    StackInv (frameStackStep stack event) (opened ++ event.openedFrame?.toList)
      (closed ++ event.closedFrame?.toList) := by
  obtain ⟨hsub, rfl⟩ := hinv
  unfold EventOk at hok
  unfold frameStackStep openedFrame? closedFrame? at *
  cases hv : event.view with
  | openFrame frame =>
    simp only [hv, Option.toList, List.nodup_append, List.disjoint_singleton] at hnodup ⊢
    have hfresh : frame.frame_id ∉ closed := fun h => hnodup.2.2 (hsub _ h)
    refine ⟨fun f hf => List.mem_append_left _ (hsub f (by simpa using hf)), ?_⟩
    simp [unclosedFrames, List.filter_append, hfresh]
  | closeFrame c =>
    simp only [hv, Option.toList, List.append_nil] at hok hnodup ⊢
    obtain ⟨rest, hrest⟩ := List.head?_eq_some_iff.1 hok
    have hc : c ∈ opened := by
      have : c ∈ unclosedFrames opened closed := hrest ▸ List.mem_cons_self c rest
      simp only [unclosedFrames, List.mem_reverse, List.mem_filter] at this
      exact this.1
    refine ⟨fun f hf => ?_, by rw [hrest, List.tail_cons, unclosedFrames_close hnodup hrest]⟩
    rcases List.mem_append.1 hf with hf | hf
    · exact hsub f hf
    · exact List.mem_singleton.1 hf ▸ hc
  | _ => simpa [hv] using (⟨hsub, rfl⟩ : StackInv _ opened closed)

/-- Along events that meet their premises and open no frame twice, the invariant holds after
every event. -/
theorem stackInv_frameStack {stack opened closed : List Int} {events : List JSONTraceEvent}
    (hinv : StackInv stack opened closed) (hnested : NestedFrom stack events)
    (hnodup : (opened ++ openedFrames events).Nodup) :
    StackInv (frameStack stack events) (opened ++ openedFrames events)
      (closed ++ closedFrames events) := by
  induction events generalizing stack opened closed with
  | nil => simpa using hinv
  | cons event events ih =>
    rw [openedFrames_cons, ← List.append_assoc] at hnodup ⊢
    rw [closedFrames_cons, ← List.append_assoc]
    exact ih (hinv.step hnested.1 hnodup.of_append_left) hnested.2 hnodup

/-- On a well-formed trace the reader's `frameIDs`, after every prefix, are the frames the
prefix opened and did not close, most recent first. -/
theorem frameIDs_eq_unclosedFrames (frameLifetime : Int)
    {events before after : List JSONTraceEvent} (hwf : WellFormed events)
    (he : events = before ++ after) :
    (TraceState.init.run frameLifetime before).frameIDs =
      unclosedFrames (openedFrames before) (closedFrames before) := by
  subst he
  have hnodup := (openedFrames_append before after ▸ hwf.distinct).of_append_left
  rw [TraceState.run_frameIDs]
  exact (stackInv_frameStack stackInv_nil (nestedFrom_append.1 hwf.nested).1 hnodup).stack_eq

/-- Inside the second call of a trace whose first call has returned, the open frames are the
outer frame and the second callee. -/
theorem frameIDs_eq_unclosedFrames_second_call :
    WellFormed [openFrameOf 1 [], openFrameOf 2 [], closeFrameOf 2, openFrameOf 3 [],
      instructionAt 0, closeFrameOf 3, closeFrameOf 1] ∧
    (TraceState.init.run (-1) [openFrameOf 1 [], openFrameOf 2 [], closeFrameOf 2,
      openFrameOf 3 []]).frameIDs = [3, 1] := by
  have hwf : WellFormed [openFrameOf 1 [], openFrameOf 2 [], closeFrameOf 2, openFrameOf 3 [],
      instructionAt 0, closeFrameOf 3, closeFrameOf 1] := by decide
  exact ⟨hwf, (@frameIDs_eq_unclosedFrames (-1) _
    [openFrameOf 1 [], openFrameOf 2 [], closeFrameOf 2, openFrameOf 3 []] _ hwf rfl).trans
    (by decide)⟩

/-! ## Balanced frame events -/

/-- An event that meets its premise pushes the frame it opens and pops the frame it closes. -/
theorem length_frameStackStep {stack : List Int} {event : JSONTraceEvent}
    (hok : EventOk stack event) :
    (frameStackStep stack event).length + event.closedFrame?.toList.length =
      stack.length + event.openedFrame?.toList.length := by
  unfold EventOk at hok
  unfold frameStackStep openedFrame? closedFrame?
  cases hv : event.view <;> simp only [hv] at hok ⊢
  case closeFrame c =>
    obtain ⟨tail, rfl⟩ := List.head?_eq_some_iff.1 hok
    simp
  all_goals simp

/-- Along events that meet their premises, the stack grows by the frames opened and shrinks
by the frames closed. -/
theorem length_frameStack_add {stack : List Int} {events : List JSONTraceEvent}
    (hnested : NestedFrom stack events) :
    (frameStack stack events).length + (closedFrames events).length =
      stack.length + (openedFrames events).length := by
  induction events generalizing stack with
  | nil => simp
  | cons event events ih =>
    have hstep := length_frameStackStep hnested.1
    have hrest := ih hnested.2
    rw [frameStack_cons, openedFrames_cons, closedFrames_cons, List.length_append,
      List.length_append]
    omega

/-- The emitted events whose frame marker satisfies `p` are one per raw event whose frame
marker does. -/
theorem countP_frameMarker_readTrace (frameLifetime : Int) (events : List JSONTraceEvent)
    (p : Bool × Int → Bool) :
    (readTrace frameLifetime ⟨events⟩).events.countP (fun e => (e.frameMarker.map p).getD false) =
      events.countP fun e => (e.frameMarker.map p).getD false := by
  rw [← List.countP_filterMap, readTrace_frameMarkers, List.countP_filterMap]

/-- `readTrace` emits one `OpenFrame` per frame the trace opens. -/
theorem countP_isOpenFrame_readTrace (frameLifetime : Int) (events : List JSONTraceEvent) :
    (readTrace frameLifetime ⟨events⟩).events.countP TraceEvent.isOpenFrame =
      (openedFrames events).length := by
  have hout : TraceEvent.isOpenFrame = fun e => (e.frameMarker.map Prod.fst).getD false := by
    funext e; cases e <;> rfl
  have hraw : (fun e : JSONTraceEvent => e.openedFrame?.isSome) =
      fun e => (e.frameMarker.map Prod.fst).getD false := by
    funext e; unfold JSONTraceEvent.frameMarker openedFrame?; cases e.view <;> rfl
  rw [openedFrames, List.length_filterMap_eq_countP, hout, hraw, countP_frameMarker_readTrace]

/-- `readTrace` emits one `CloseFrame` per `CloseFrame` of the trace. -/
theorem countP_isCloseFrame_readTrace (frameLifetime : Int) (events : List JSONTraceEvent) :
    (readTrace frameLifetime ⟨events⟩).events.countP TraceEvent.isCloseFrame =
      (closedFrames events).length := by
  have hout : TraceEvent.isCloseFrame = fun e => (e.frameMarker.map (!·.1)).getD false := by
    funext e; cases e <;> rfl
  have hraw : (fun e : JSONTraceEvent => e.closedFrame?.isSome) =
      fun e => (e.frameMarker.map (!·.1)).getD false := by
    funext e; unfold JSONTraceEvent.frameMarker closedFrame?; cases e.view <;> rfl
  rw [closedFrames, List.length_filterMap_eq_countP, hout, hraw, countP_frameMarker_readTrace]

/-- A trace whose `CloseFrame`s close the innermost frame and which closes every frame it opens
is read to as many `OpenFrame` events as `CloseFrame` events. -/
theorem readTrace_openFrame_count_eq_closeFrame_count (frameLifetime : Int)
    {events : List JSONTraceEvent} (hnested : NestedFrom [] events)
    (hclosed : frameStack [] events = []) :
    (readTrace frameLifetime ⟨events⟩).events.countP TraceEvent.isOpenFrame =
      (readTrace frameLifetime ⟨events⟩).events.countP TraceEvent.isCloseFrame := by
  have hlen := length_frameStack_add hnested
  rw [hclosed] at hlen
  rw [countP_isOpenFrame_readTrace, countP_isCloseFrame_readTrace]
  simpa using hlen.symm

/-- A call with a nested call is read to two `OpenFrame` and two `CloseFrame` events. -/
theorem readTrace_openFrame_count_eq_closeFrame_count_nested :
    NestedFrom [] [openFrameOf 1 [4], instructionAt 0, openFrameOf 2 [], instructionAt 0,
      closeFrameOf 2, closeFrameOf 1] ∧
    frameStack [] [openFrameOf 1 [4], instructionAt 0, openFrameOf 2 [], instructionAt 0,
      closeFrameOf 2, closeFrameOf 1] = [] ∧
    (readTrace (-1) ⟨[openFrameOf 1 [4], instructionAt 0, openFrameOf 2 [], instructionAt 0,
      closeFrameOf 2, closeFrameOf 1]⟩).events.countP TraceEvent.isOpenFrame =
    (readTrace (-1) ⟨[openFrameOf 1 [4], instructionAt 0, openFrameOf 2 [], instructionAt 0,
      closeFrameOf 2, closeFrameOf 1]⟩).events.countP TraceEvent.isCloseFrame :=
  ⟨by decide, by decide, readTrace_openFrame_count_eq_closeFrame_count (-1) (by decide)
    (by decide)⟩

/-! ## The id of a `CloseFrame` is never read -/

/-- No branch of `readTrace` reads the events emitted so far: a step from a state with other
emitted events is the same step with those events in front. -/
theorem TraceState.step_with_events (frameLifetime : Int) (s : TraceState)
    (events : List TraceEvent) (event : JSONTraceEvent) :
    ({ s with events } : TraceState).step frameLifetime event =
      { s.step frameLifetime event with events := events ++ eventImage s.frameIDs event } := by
  unfold eventImage
  cases hv : event.view with
  | effect effect =>
    simp only [TraceState.step, JSONTraceEvent.branch_eq_view, hv, TraceState.effect_eq, JSONTraceEffect.location?]
    rcases effect.Write with _ | write
    · rcases effect.Read with _ | read
      · simp
      · simp only [Option.some_bind]
        cases read.location.resolve s.frameIDs.head? <;> simp
    · simp only [Option.some_bind]
      cases write.location.resolve s.frameIDs.head? <;> simp
  | _ => simp [TraceState.step, hv, TraceState.openFrame, TraceState.closeFrame,
      TraceState.instruction]

/-- A run from a state with other emitted events is the same run with those events in
front. -/
theorem TraceState.run_with_events (frameLifetime : Int) (s : TraceState)
    (events : List TraceEvent) (raw : List JSONTraceEvent) :
    ({ s with events } : TraceState).run frameLifetime raw =
      { s.run frameLifetime raw with
        events := events ++ (annotate s.frameIDs raw).flatMap fun p => eventImage p.1 p.2 } := by
  induction raw generalizing s events with
  | nil => simp [annotate]
  | cons event raw ih =>
    rw [TraceState.run_cons, TraceState.step_with_events, ih, TraceState.run_cons,
      TraceState.step_frameIDs]
    simp [annotate, List.append_assoc]

/-- `readTrace` never reads the id of a `CloseFrame`: for every trace, giving one `CloseFrame`
another id, a mismatched one included, changes only the id of the `CloseFrame` event emitted
for it; every other emitted event and the whole lifetime table stay the same. -/
theorem readTrace_closeFrame_id_unread (frameLifetime : Int) (before after : List JSONTraceEvent)
    {event event' : JSONTraceEvent} {c c' : Int} (hv : event.view = .closeFrame c)
    (hv' : event'.view = .closeFrame c') :
    (readTrace frameLifetime ⟨before ++ event' :: after⟩).localLifetimeEnds =
      (readTrace frameLifetime ⟨before ++ event :: after⟩).localLifetimeEnds ∧
    ∃ xs ys, (readTrace frameLifetime ⟨before ++ event :: after⟩).events =
        xs ++ .CloseFrame c :: ys ∧
      (readTrace frameLifetime ⟨before ++ event' :: after⟩).events = xs ++ .CloseFrame c' :: ys := by
  have hsplit : ∀ e, TraceState.init.run frameLifetime (before ++ e :: after) =
      ((TraceState.init.run frameLifetime before).step frameLifetime e).run frameLifetime after :=
    fun e => by rw [TraceState.run_append, TraceState.run_cons]
  simp only [readTrace, hsplit]
  generalize TraceState.init.run frameLifetime before = s
  have hstep : s.step frameLifetime event' =
      { s.step frameLifetime event with events := s.events ++ [.CloseFrame c'] } := by
    simp [TraceState.step, hv, hv', TraceState.closeFrame]
  rw [hstep, TraceState.run_with_events, TraceState.run_events]
  refine ⟨rfl, s.events, (annotate (s.step frameLifetime event).frameIDs after).flatMap
    fun p => eventImage p.1 p.2, ?_, by simp⟩
  simp [TraceState.step, hv, TraceState.closeFrame]

/-- Closing frame `1` while frame `2` is innermost is read as closing frame `2`. -/
theorem readTrace_closeFrame_id_unread_mismatch :
    (readTrace (-1) ⟨[openFrameOf 1 [7], openFrameOf 2 []] ++ closeFrameOf 1 ::
        [instructionAt 5, closeFrameOf 1]⟩).localLifetimeEnds =
      (readTrace (-1) ⟨[openFrameOf 1 [7], openFrameOf 2 []] ++ closeFrameOf 2 ::
        [instructionAt 5, closeFrameOf 1]⟩).localLifetimeEnds ∧
    ∃ xs ys, (readTrace (-1) ⟨[openFrameOf 1 [7], openFrameOf 2 []] ++ closeFrameOf 2 ::
        [instructionAt 5, closeFrameOf 1]⟩).events = xs ++ .CloseFrame 2 :: ys ∧
      (readTrace (-1) ⟨[openFrameOf 1 [7], openFrameOf 2 []] ++ closeFrameOf 1 ::
        [instructionAt 5, closeFrameOf 1]⟩).events = xs ++ .CloseFrame 1 :: ys :=
  readTrace_closeFrame_id_unread (-1) _ _ rfl rfl

/-! ## Rows are final at `CloseFrame` -/

/-- On a well-formed trace, a frame's row in the lifetime table is final at its `CloseFrame`:
the row `readTrace` returns is the row after the `CloseFrame`. -/
theorem localLifetimeEnds_final_at_closeFrame (frameLifetime : Int)
    {before after : List JSONTraceEvent} {event : JSONTraceEvent} {f : Int}
    (hwf : WellFormed (before ++ event :: after)) (hv : event.view = .closeFrame f) :
    (readTrace frameLifetime ⟨before ++ event :: after⟩).localLifetimeEnds (some f) =
      (readTrace frameLifetime ⟨before ++ [event]⟩).localLifetimeEnds (some f) := by
  have hsplit : before ++ event :: after = (before ++ [event]) ++ after := by simp
  rw [hsplit] at hwf ⊢
  obtain ⟨hpre, hpost⟩ := nestedFrom_append.1 hwf.nested
  have hdistinct := openedFrames_append _ after ▸ hwf.distinct
  have hinv := stackInv_frameStack stackInv_nil hpre hdistinct.of_append_left
  have hclosed : f ∈ closedFrames (before ++ [event]) := by simp [closedFrames, closedFrame?, hv]
  rw [readTrace_localLifetimeEnds, readTrace_localLifetimeEnds, frameProjection_append,
    frameProjection_eq_nil hpost ?_ ?_, List.append_nil]
  · rw [hinv.stack_eq]
    simp [unclosedFrames, hclosed]
  · exact List.disjoint_left.1 (List.nodup_append.1 hdistinct).2.2 (hinv.closed_subset f hclosed)

/-- The row of frame `1` does not change after its `CloseFrame`, while frame `2` runs. -/
theorem localLifetimeEnds_final_at_closeFrame_next_call :
    WellFormed ([openFrameOf 1 [42], instructionAt 3] ++ closeFrameOf 1 ::
      [openFrameOf 2 [], instructionAt 7, closeFrameOf 2]) ∧
    (readTrace (-1) ⟨[openFrameOf 1 [42], instructionAt 3] ++ closeFrameOf 1 ::
      [openFrameOf 2 [], instructionAt 7, closeFrameOf 2]⟩).localLifetimeEnds (some 1) =
    (readTrace (-1) ⟨[openFrameOf 1 [42], instructionAt 3] ++ [closeFrameOf 1]⟩).localLifetimeEnds
      (some 1) :=
  ⟨by decide, localLifetimeEnds_final_at_closeFrame (-1) (by decide) rfl⟩

end TraceAdapter
