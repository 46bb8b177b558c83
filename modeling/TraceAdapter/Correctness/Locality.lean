import TraceAdapter.Interpretation.FrameRows

/-!
# Per-frame locality of the lifetime table

The row of frame `f` in `readTrace`'s lifetime table is the single-frame
lifetime algorithm run on the projection of the trace on `f`. Nested calls,
`Push` and `Pop` effects and unresolved effects never reach it, and the row
exists exactly when the trace opens `f` or resolves a `Read` or `Write` to one
of its locals. The row is not reset when a frame id is used again: a closed
earlier activation with the same id leaves its row, and its stored maxima, to
the later one.
-/

namespace TraceAdapter

open JSONTraceEvent

section

variable (frameLifetime : Int)

/-- Two traces with the same projection on `f` give `f` the same row. -/
theorem localLifetimeEnds_eq_of_frameProjection_eq (T₁ T₂ : List JSONTraceEvent) (f : Int)
    (h : frameProjection f [] T₁ = frameProjection f [] T₂) :
    (readTrace frameLifetime ⟨T₁⟩).localLifetimeEnds (some f) =
      (readTrace frameLifetime ⟨T₂⟩).localLifetimeEnds (some f) := by
  rw [readTrace_localLifetimeEnds, readTrace_localLifetimeEnds, h]

/-! ## Which frames have a row -/

/-- Every operation gives the frame a row, so a run leaves none only from none and with no
operation. -/
theorem frameRun_ends_eq_none {rows : FrameRows} {ops : List FrameOp} :
    (frameRun frameLifetime rows ops).ends = none ↔ rows.ends = none ∧ ops = [] := by
  induction ops generalizing rows with
  | nil => simp [frameRun]
  | cons op ops ih =>
    show (frameRun frameLifetime (op.apply frameLifetime rows) ops).ends = none ↔ _
    rw [ih]
    cases op <;> simp [FrameOp.apply]

/-- For every trace, `readTrace`'s table has a row for frame `f` exactly when the trace opens
`f` or some `Read` or `Write` resolves to a local of `f`, whether `f` was opened or not. -/
theorem localLifetimeEnds_ne_none_iff (events : List JSONTraceEvent) (f : Int) :
    (readTrace frameLifetime ⟨events⟩).localLifetimeEnds (some f) ≠ none ↔
      f ∈ openedFrames events ∨ ∃ q ∈ annotate [] events, ∃ i, q.2.access? q.1 = some (f, i) := by
  rw [readTrace_localLifetimeEnds, Ne, frameRun_ends_eq_none, frameProjection_eq_filterMap]
  simp only [true_and, List.filterMap_eq_nil_iff]
  push_neg
  constructor
  · rintro ⟨q, hq, hop⟩
    obtain ⟨op, hop⟩ := Option.ne_none_iff_exists'.1 hop
    rcases frameOp?_eq_some.1 hop with ⟨frame, hv, rfl, -⟩ | ⟨pc, -, hhead, -⟩ | ⟨i, hacc, -⟩
    · exact .inl (mem_openedFrames.2
        ⟨q.2, map_snd_annotate [] events ▸ List.mem_map_of_mem _ hq, frame, hv, rfl⟩)
    · exact .inl (mem_openedFrames_of_mem_annotate hq (List.mem_of_mem_head? hhead))
    · exact .inr ⟨q, hq, i, hacc⟩
  · rintro (h | ⟨q, hq, i, hacc⟩)
    · obtain ⟨event, hmem, frame, hv, rfl⟩ := mem_openedFrames.1 h
      rw [← map_snd_annotate [] events] at hmem
      obtain ⟨q, hq, rfl⟩ := List.mem_map.1 hmem
      exact ⟨q, hq, by simp [JSONTraceEvent.frameOp?, hv]⟩
    · exact ⟨q, hq, by simp [frameOp?_of_access hacc]⟩

example : (readTrace (-1) ⟨[writeOf (.Local 5 0) 1]⟩).localLifetimeEnds (some 5) =
    some [some (-1)] := by decide

/-! ## The row of `undefined` -/

/-- Whether an event is an `Instruction`. -/
def JSONTraceEvent.isInstruction (event : JSONTraceEvent) : Bool :=
  match event.view with
  | .instruction _ => true
  | _ => false

/-- Only an `Instruction` run while no frame is open writes the row of `undefined`
(`frameIDs[frameIDs.length - 1]` on an empty stack); it writes back the row it read, through the
loop over its slots. The other branches write rows of frame ids. -/
theorem step_localLifetimeEnds_none_eq (s : TraceState) (event : JSONTraceEvent) :
    (s.step frameLifetime event).localLifetimeEnds none =
      match event.view, s.frameIDs with
      | .instruction pc, [] => some (updateLifetimeEnds frameLifetime pc
          (lifetimeRow s.localLifetimeEnds none) (lifetimeRow s.locaLifetimeEndsMax none)).1
      | _, _ => s.localLifetimeEnds none := by
  cases hv : event.view with
  | instruction pc =>
    cases hs : s.frameIDs <;> simp [TraceState.step, hv, TraceState.instruction, hs]
  | effect effect =>
    simp only [TraceState.step, JSONTraceEvent.branch_eq_view, hv, TraceState.effect_eq]
    split <;> simp [markLive]
  | _ => simp [TraceState.step, hv, TraceState.openFrame, TraceState.closeFrame]

/-- While the row of `undefined` is absent or empty, a step makes it empty exactly at an
`Instruction` run with no frame open, and leaves it otherwise. -/
theorem step_localLifetimeEnds_none_of_empty {s : TraceState}
    (hs : s.localLifetimeEnds none = none ∨ s.localLifetimeEnds none = some [])
    (event : JSONTraceEvent) :
    (s.step frameLifetime event).localLifetimeEnds none =
      if s.frameIDs = [] ∧ event.isInstruction then some [] else s.localLifetimeEnds none := by
  have hrow : lifetimeRow s.localLifetimeEnds none = [] := by
    rcases hs with h | h <;> simp [lifetimeRow, h]
  rw [step_localLifetimeEnds_none_eq]
  cases hv : event.view <;> cases hstack : s.frameIDs <;>
    simp [JSONTraceEvent.isInstruction, hv, hstack, hrow, updateLifetimeEnds]

theorem run_localLifetimeEnds_none_of_empty {s : TraceState} {events : List JSONTraceEvent}
    (hs : s.localLifetimeEnds none = none ∨ s.localLifetimeEnds none = some []) :
    (s.run frameLifetime events).localLifetimeEnds none =
      if ∃ q ∈ annotate s.frameIDs events, q.1 = [] ∧ q.2.isInstruction then some []
      else s.localLifetimeEnds none := by
  induction events generalizing s with
  | nil => simp
  | cons event events ih =>
    have hstep := step_localLifetimeEnds_none_of_empty frameLifetime hs event
    rw [TraceState.run_cons, ih (by rw [hstep]; split_ifs <;> simp [hs]), hstep,
      TraceState.step_frameIDs]
    by_cases hnow : s.frameIDs = [] ∧ event.isInstruction
    · simp [annotate, hnow]
    · simp only [annotate, List.mem_cons, exists_eq_or_imp, hnow, false_or, if_false]

/-- For every trace, `readTrace`'s table has a row under the key `undefined` exactly when some
`Instruction` runs while no frame is open, and that row is then empty. -/
theorem localLifetimeEnds_undefined (events : List JSONTraceEvent) :
    (readTrace frameLifetime ⟨events⟩).localLifetimeEnds none =
      if ∃ q ∈ annotate [] events, q.1 = [] ∧ q.2.isInstruction then some [] else none :=
  run_localLifetimeEnds_none_of_empty frameLifetime (s := TraceState.init) (.inl rfl)

end

/-- A nested call, its instructions and effects, and a `Read` of the caller's local through
a reference leave the caller's row as in the trace without the call. -/
theorem localLifetimeEnds_eq_of_frameProjection_eq_nested :
    frameProjection 1 []
        [openFrameOf 1 [42], instructionAt 0, readOf (.Local 1 0), instructionAt 1,
          closeFrameOf 1] =
      frameProjection 1 []
        [openFrameOf 1 [42], instructionAt 0, openFrameOf 2 [], instructionAt 7,
          readOf (.Local 1 0), writeOf (.Indexed 1 0) 3, closeFrameOf 2, instructionAt 1,
          closeFrameOf 1] ∧
    (readTrace (-1) ⟨[openFrameOf 1 [42], instructionAt 0, readOf (.Local 1 0),
        instructionAt 1, closeFrameOf 1]⟩).localLifetimeEnds (some 1) =
      (readTrace (-1) ⟨[openFrameOf 1 [42], instructionAt 0, openFrameOf 2 [],
        instructionAt 7, readOf (.Local 1 0), writeOf (.Indexed 1 0) 3, closeFrameOf 2,
        instructionAt 1, closeFrameOf 1]⟩).localLifetimeEnds (some 1) :=
  ⟨by decide, localLifetimeEnds_eq_of_frameProjection_eq (-1) _ _ 1 (by decide)⟩

/-- A frame that is neither open at the start nor opened by a nested trace has no operation
in it. -/
theorem frameProjection_eq_nil {f : Int} {stack : List Int} {events : List JSONTraceEvent}
    (hnested : NestedFrom stack events) (hstack : f ∉ stack) (hopened : f ∉ openedFrames events) :
    frameProjection f stack events = [] := by
  induction events generalizing stack with
  | nil => rfl
  | cons event events ih =>
    rw [openedFrames_cons] at hopened
    have hnone : event.frameOp? f stack = none := by
      rcases h : event.frameOp? f stack with _ | op
      · rfl
      · rcases frameOp?_eq_some.mp h with ⟨frame, hv, rfl, -⟩ | ⟨pc, -, hhead, -⟩ | ⟨i, hacc, -⟩
        · simp [openedFrame?, hv] at hopened
        · exact absurd (List.mem_of_mem_head? hhead) hstack
        · exact absurd (access_mem hnested.1 hacc) hstack
    have hstack' : f ∉ frameStackStep stack event := fun h =>
      (mem_frameStackStep h).elim hstack fun h => hopened (List.mem_append_left _ h)
    simp only [frameProjection, hnone, Option.toList_none, List.nil_append]
    exact ih hnested.2 hstack' (fun h => hopened (List.mem_append_right _ h))

/-- A closed prefix that never opens `f` leaves `f`'s row as the rest of the trace makes it. -/
theorem readTrace_append_of_not_opened (frameLifetime : Int) (P T : List JSONTraceEvent)
    (f : Int) (hP : WellFormed P) (hclosed : frameStack [] P = []) (hf : f ∉ openedFrames P) :
    (readTrace frameLifetime ⟨P ++ T⟩).localLifetimeEnds (some f) =
      (readTrace frameLifetime ⟨T⟩).localLifetimeEnds (some f) := by
  rw [readTrace_localLifetimeEnds, readTrace_localLifetimeEnds, frameProjection_append, hclosed,
    frameProjection_eq_nil hP.nested (List.not_mem_nil f) hf, List.nil_append]

/-- A closed prefix calling frame `2` leaves the row of frame `1` as the rest makes it. -/
theorem readTrace_append_of_not_opened_call :
    WellFormed [openFrameOf 2 [5], instructionAt 3, closeFrameOf 2] ∧
    frameStack [] [openFrameOf 2 [5], instructionAt 3, closeFrameOf 2] = [] ∧
    1 ∉ openedFrames [openFrameOf 2 [5], instructionAt 3, closeFrameOf 2] ∧
    (readTrace (-1) ⟨[openFrameOf 2 [5], instructionAt 3, closeFrameOf 2] ++
        [openFrameOf 1 [], closeFrameOf 1]⟩).localLifetimeEnds (some 1) =
      (readTrace (-1) ⟨[openFrameOf 1 [], closeFrameOf 1]⟩).localLifetimeEnds (some 1) :=
  ⟨by decide, by decide, by decide,
    readTrace_append_of_not_opened (-1) _ _ 1 (by decide) (by decide) (by decide)⟩

/-- Reusing a frame id leaks the earlier activation's row: after a closed call of frame `1`
with two parameters, a later call of frame `1` with one parameter keeps both entries. -/
theorem readTrace_reused_frame_id :
    WellFormed [openFrameOf 1 [5, 6], closeFrameOf 1] ∧
    WellFormed [openFrameOf 1 [7], closeFrameOf 1] ∧
    frameStack [] [openFrameOf 1 [5, 6], closeFrameOf 1] = [] ∧
    (readTrace (-1) ⟨[openFrameOf 1 [5, 6], closeFrameOf 1] ++
        [openFrameOf 1 [7], closeFrameOf 1]⟩).localLifetimeEnds (some 1) = some [some (-1), some (-1)] ∧
    (readTrace (-1) ⟨[openFrameOf 1 [7], closeFrameOf 1]⟩).localLifetimeEnds (some 1) =
      some [some (-1)] :=
  ⟨by decide, by decide, by decide, rfl, rfl⟩

/-- For every two traces, the row of frame `f` after `P ++ T` continues the single-frame
algorithm from the row and the largest ends that `P` left for `f`, over `T`'s operations on `f`:
nothing resets a frame's rows, so a later activation of a reused id starts from the entries
and maxima of the earlier one. -/
theorem readTrace_append_continues (frameLifetime : Int) (P T : List JSONTraceEvent) (f : Int) :
    (readTrace frameLifetime ⟨P ++ T⟩).localLifetimeEnds (some f) =
      (frameRun frameLifetime ((TraceState.init.run frameLifetime P).frameRows f)
        (frameProjection f (frameStack [] P) T)).ends := by
  rw [readTrace_localLifetimeEnds, frameProjection_append, frameRun_append, init_run_frameRows]

end TraceAdapter
