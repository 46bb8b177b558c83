import TraceAdapter.Interpretation.Stack

/-!
# One frame's lifetime rows

The rows of frame `f` in the two lifetime tables change only at the events
that concern `f`: its `OpenFrame`, an `Instruction` executed while `f` is
innermost, and a `Read` or `Write` resolving to a local of `f`. Each is a
`FrameOp`, and the rows evolve by the single-frame lifetime algorithm
`FrameOp.apply` over the projection of the trace on `f`.
-/

namespace TraceAdapter

/-- What an event does to the rows of one frame. -/
inductive FrameOp where
  /-- An `OpenFrame` of the frame, with its number of parameters. -/
  | enter (params : Nat)
  /-- An `Instruction` executed while the frame is innermost. -/
  | instruction (pc : Int)
  /-- A `Read` or `Write` resolving to one of the frame's locals. -/
  | access (localIndex : Nat)
  deriving DecidableEq

/-- The operation an event is on frame `f` when the open frames are `stack`. -/
def JSONTraceEvent.frameOp? (event : JSONTraceEvent) (f : Int) (stack : List Int) :
    Option FrameOp :=
  match event.view with
  | .openFrame frame => if frame.frame_id = f then some (.enter frame.parameters.length) else none
  | .instruction pc => if stack.head? = some f then some (.instruction pc) else none
  | _ =>
    match event.access? stack with
    | some (frameId, localIndex) => if frameId = f then some (.access localIndex) else none
    | none => none

/-- The projection of a trace on frame `f`: its operations on `f`, in trace order. -/
def frameProjection (f : Int) : List Int → List JSONTraceEvent → List FrameOp
  | _, [] => []
  | stack, event :: events =>
    (event.frameOp? f stack).toList ++ frameProjection f (frameStackStep stack event) events

/-- The rows of one frame in the two lifetime tables. -/
structure FrameRows where
  /-- The row of `localLifetimeEnds`. -/
  ends : Option (List (Option Int))
  /-- The row of `locaLifetimeEndsMax`. -/
  maxs : Option (List (Option Int))
  deriving DecidableEq

/-- The end of lifetime of local `i`. -/
def FrameRows.entry (rows : FrameRows) (i : Nat) : Option Int := Sparse.get (rows.ends.getD []) i

/-- The largest end of lifetime stored for local `i`. -/
def FrameRows.maxEntry (rows : FrameRows) (i : Nat) : Option Int :=
  Sparse.get (rows.maxs.getD []) i

/-- The single-frame lifetime algorithm: one operation on the rows of a frame. -/
def FrameOp.apply (frameLifetime : Int) (rows : FrameRows) : FrameOp → FrameRows
  | .enter params => ⟨some (Sparse.fill (rows.ends.getD []) params frameLifetime), rows.maxs⟩
  | .instruction pc =>
    let tables := updateLifetimeEnds frameLifetime pc (rows.ends.getD []) (rows.maxs.getD [])
    ⟨some tables.1, some tables.2⟩
  | .access localIndex => ⟨some (Sparse.set (rows.ends.getD []) localIndex frameLifetime), rows.maxs⟩

/-- The single-frame lifetime algorithm over a list of operations. -/
def frameRun (frameLifetime : Int) (rows : FrameRows) (ops : List FrameOp) : FrameRows :=
  ops.foldl (FrameOp.apply frameLifetime) rows

theorem frameRun_append (frameLifetime : Int) (rows : FrameRows) (ops ops' : List FrameOp) :
    frameRun frameLifetime rows (ops ++ ops') =
      frameRun frameLifetime (frameRun frameLifetime rows ops) ops' :=
  List.foldl_append _ _ _ _

/-- The rows of frame `f`. -/
def TraceState.frameRows (s : TraceState) (f : Int) : FrameRows :=
  ⟨s.localLifetimeEnds (some f), s.locaLifetimeEndsMax (some f)⟩

theorem lifetimeEntry_eq_entry (s : TraceState) (f : Int) (i : Nat) :
    lifetimeEntry s.localLifetimeEnds (some f) i = (s.frameRows f).entry i := rfl

/-- What an event's operation on frame `f` can be. -/
theorem frameOp?_eq_some {event : JSONTraceEvent} {f : Int} {stack : List Int} {op : FrameOp} :
    event.frameOp? f stack = some op ↔
      (∃ frame, event.view = .openFrame frame ∧ frame.frame_id = f ∧
        op = .enter frame.parameters.length) ∨
      (∃ pc, event.view = .instruction pc ∧ stack.head? = some f ∧ op = .instruction pc) ∨
      (∃ localIndex, event.access? stack = some (f, localIndex) ∧ op = .access localIndex) := by
  unfold JSONTraceEvent.frameOp?
  cases hv : event.view with
  | openFrame frame =>
    simp only [JSONTraceEvent.access?, hv, Option.ite_none_right_eq_some, Option.some.injEq]
    constructor
    · rintro ⟨rfl, rfl⟩; exact .inl ⟨_, rfl, rfl, rfl⟩
    · rintro (⟨_, ⟨rfl⟩, rfl, rfl⟩ | ⟨_, h, _⟩ | ⟨_, h, _⟩) <;> simp_all
  | instruction pc =>
    simp only [JSONTraceEvent.access?, hv, Option.ite_none_right_eq_some, Option.some.injEq]
    constructor
    · rintro ⟨h, rfl⟩; exact .inr (.inl ⟨_, rfl, h, rfl⟩)
    · rintro (⟨_, h, _⟩ | ⟨_, ⟨rfl⟩, h, rfl⟩ | ⟨_, h, _⟩) <;> simp_all
  | effect effect =>
    simp only [JSONTraceEvent.access?, hv, reduceCtorEq, false_and, exists_false, false_or]
    cases effect.location?.bind fun location => location.resolve stack.head? with
    | none => simp
    | some p =>
      obtain ⟨frameId, localIndex⟩ := p
      by_cases h : frameId = f
      · subst h; simp [eq_comm]
      · simp [h]
  | closeFrame _ => simp [JSONTraceEvent.access?, hv]
  | ignored => simp [JSONTraceEvent.access?, hv]

/-- An event resolving to local `localIndex` of `f` is an access of `f`. -/
theorem frameOp?_of_access {event : JSONTraceEvent} {f : Int} {stack : List Int}
    {localIndex : Nat} (h : event.access? stack = some (f, localIndex)) :
    event.frameOp? f stack = some (.access localIndex) :=
  frameOp?_eq_some.mpr (.inr (.inr ⟨localIndex, h, rfl⟩))

/-- The projection keeps, in order, the operation each annotated event is on `f`. -/
theorem frameProjection_eq_filterMap (f : Int) (stack : List Int) (events : List JSONTraceEvent) :
    frameProjection f stack events =
      (annotate stack events).filterMap fun p => p.2.frameOp? f p.1 := by
  induction events generalizing stack with
  | nil => rfl
  | cons event events ih =>
    simp only [frameProjection, annotate, List.filterMap_cons, ih]
    cases event.frameOp? f stack <;> rfl

theorem frameProjection_append (f : Int) (stack : List Int) (before after : List JSONTraceEvent) :
    frameProjection f stack (before ++ after) =
      frameProjection f stack before ++ frameProjection f (frameStack stack before) after := by
  induction before generalizing stack with
  | nil => rfl
  | cons event before ih => simp [frameProjection, ih]

section

variable (frameLifetime : Int)

@[simp] theorem entry_apply_enter (rows : FrameRows) (params i : Nat) :
    ((FrameOp.enter params).apply frameLifetime rows).entry i =
      if i < params then some frameLifetime else rows.entry i := by
  simp [FrameOp.apply, FrameRows.entry]

@[simp] theorem entry_apply_instruction (rows : FrameRows) (pc : Int) (i : Nat) :
    ((FrameOp.instruction pc).apply frameLifetime rows).entry i =
      if i < (rows.ends.getD []).length ∧
          takesEnd frameLifetime pc (rows.entry i) (rows.maxEntry i) then some pc
      else rows.entry i := by
  simp [FrameOp.apply, FrameRows.entry, FrameRows.maxEntry]

@[simp] theorem entry_apply_access (rows : FrameRows) (localIndex i : Nat) :
    ((FrameOp.access localIndex).apply frameLifetime rows).entry i =
      if i = localIndex then some frameLifetime else rows.entry i := by
  simp [FrameOp.apply, FrameRows.entry]

@[simp] theorem maxEntry_apply_enter (rows : FrameRows) (params i : Nat) :
    ((FrameOp.enter params).apply frameLifetime rows).maxEntry i = rows.maxEntry i := rfl

@[simp] theorem maxEntry_apply_instruction (rows : FrameRows) (pc : Int) (i : Nat) :
    ((FrameOp.instruction pc).apply frameLifetime rows).maxEntry i =
      if i < (rows.ends.getD []).length ∧
          takesEnd frameLifetime pc (rows.entry i) (rows.maxEntry i) then some pc
      else rows.maxEntry i := by
  simp [FrameOp.apply, FrameRows.entry, FrameRows.maxEntry]

@[simp] theorem maxEntry_apply_access (rows : FrameRows) (localIndex i : Nat) :
    ((FrameOp.access localIndex).apply frameLifetime rows).maxEntry i = rows.maxEntry i := rfl

/-- One step of the reader changes the rows of frame `f` by the operation the event is on
`f`, and leaves them alone when it is none. -/
theorem step_frameRows (s : TraceState) (event : JSONTraceEvent) (f : Int) :
    (s.step frameLifetime event).frameRows f =
      match event.frameOp? f s.frameIDs with
      | some op => op.apply frameLifetime (s.frameRows f)
      | none => s.frameRows f := by
  unfold JSONTraceEvent.frameOp?
  cases hv : event.view with
  | openFrame frame =>
    by_cases h : frame.frame_id = f
    · subst h
      simp [TraceState.step, hv, TraceState.frameRows, TraceState.openFrame, FrameOp.apply,
        lifetimeRow]
    · simp [TraceState.step, hv, TraceState.frameRows, TraceState.openFrame, h,
        Function.update_noteq (Option.some_injective _ |>.ne (Ne.symm h))]
  | instruction pc =>
    by_cases h : s.frameIDs.head? = some f
    · simp [TraceState.step, hv, TraceState.frameRows, TraceState.instruction, FrameOp.apply,
        lifetimeRow, h]
    · simp [TraceState.step, hv, TraceState.frameRows, TraceState.instruction, h,
        Function.update_noteq (Ne.symm h)]
  | closeFrame frame_id => simp [TraceState.step, hv, JSONTraceEvent.access?]; rfl
  | ignored => simp [TraceState.step, hv, JSONTraceEvent.access?]
  | effect effect =>
    simp only [TraceState.step, JSONTraceEvent.branch_eq_view, hv, JSONTraceEvent.access?, TraceState.effect_eq]
    cases effect.location?.bind fun location => location.resolve s.frameIDs.head? with
    | none => rfl
    | some p =>
      obtain ⟨frameId, localIndex⟩ := p
      by_cases h : frameId = f
      · subst h; simp [TraceState.frameRows, markLive, FrameOp.apply, lifetimeRow]
      · simp [TraceState.frameRows, markLive, h,
          Function.update_noteq (Option.some_injective _ |>.ne (Ne.symm h))]

/-- The rows of frame `f` after a run are the single-frame algorithm over the projection of
the run on `f`. -/
theorem run_frameRows (s : TraceState) (events : List JSONTraceEvent) (f : Int) :
    (s.run frameLifetime events).frameRows f =
      frameRun frameLifetime (s.frameRows f) (frameProjection f s.frameIDs events) := by
  induction events generalizing s with
  | nil => rfl
  | cons event events ih =>
    rw [TraceState.run_cons, ih, step_frameRows, TraceState.step_frameIDs, frameProjection]
    cases event.frameOp? f s.frameIDs <;> rfl

/-- From the start of the walk, the rows of frame `f` are the single-frame algorithm from empty
rows over the projection of the events on `f`. -/
theorem init_run_frameRows (events : List JSONTraceEvent) (f : Int) :
    (TraceState.init.run frameLifetime events).frameRows f =
      frameRun frameLifetime ⟨none, none⟩ (frameProjection f [] events) :=
  run_frameRows frameLifetime TraceState.init events f

/-- The row of frame `f` in `readTrace`'s table is the single-frame algorithm on the
projection of the trace on `f`. -/
theorem readTrace_localLifetimeEnds (events : List JSONTraceEvent) (f : Int) :
    (readTrace frameLifetime ⟨events⟩).localLifetimeEnds (some f) =
      (frameRun frameLifetime ⟨none, none⟩ (frameProjection f [] events)).ends :=
  congrArg FrameRows.ends (init_run_frameRows frameLifetime events f)

theorem lifetimeEntry_readTrace (events : List JSONTraceEvent) (f : Int) (i : Nat) :
    lifetimeEntry (readTrace frameLifetime ⟨events⟩).localLifetimeEnds (some f) i =
      (frameRun frameLifetime ⟨none, none⟩ (frameProjection f [] events)).entry i :=
  congrArg (FrameRows.entry · i) (init_run_frameRows frameLifetime events f)

end

end TraceAdapter
