import TraceAdapter.Interpretation.FrameRows

/-!
# Stored ends of lifetime only grow

The `Instruction` branch stores a pc as end of lifetime only when it exceeds
the largest end stored for that local, and stores it in both tables. So a
stored end other than the sentinel is always the local's stored maximum, the
maximum never decreases, and the successive stored ends strictly increase;
between stores an entry is only reset to the sentinel, by an `OpenFrame`
declaring it a parameter or by a `Read` or `Write` resolving to it.
-/

namespace TraceAdapter

open JSONTraceEvent

section

variable (frameLifetime : Int)

/-- A stored end of lifetime of local `i` other than the sentinel is the largest end stored
for it. -/
def FrameRows.MaxInv (rows : FrameRows) (i : Nat) : Prop :=
  ∀ e, rows.entry i = some e → e ≠ frameLifetime → rows.maxEntry i = some e

/-- An entry of the maxima row that, once set, stays set and does not decrease. -/
def NoDecrease (a b : Option Int) : Prop := ∀ m, a = some m → ∃ m', b = some m' ∧ m ≤ m'

theorem NoDecrease.refl (a : Option Int) : NoDecrease a a := fun m h => ⟨m, h, le_rfl⟩

theorem maxInv_apply {rows : FrameRows} {i : Nat} (h : rows.MaxInv frameLifetime i)
    (op : FrameOp) : (op.apply frameLifetime rows).MaxInv frameLifetime i := by
  intro e he hne
  cases op with
  | enter params =>
    simp only [entry_apply_enter, maxEntry_apply_enter] at he ⊢
    split_ifs at he
    · simp_all
    · exact h e he hne
  | instruction pc =>
    simp only [entry_apply_instruction, maxEntry_apply_instruction] at he ⊢
    split_ifs at he ⊢
    · exact he
    · exact h e he hne
  | access localIndex =>
    simp only [entry_apply_access, maxEntry_apply_access] at he ⊢
    split_ifs at he
    · simp_all
    · exact h e he hne

theorem noDecrease_apply (rows : FrameRows) (i : Nat) (op : FrameOp) :
    NoDecrease (rows.maxEntry i) ((op.apply frameLifetime rows).maxEntry i) := by
  cases op with
  | instruction pc =>
    intro m hm
    simp only [maxEntry_apply_instruction]
    split_ifs with h
    · simp only [takesEnd, hm, isUnsetOrBelow, Bool.and_eq_true, decide_eq_true_eq] at h
      exact ⟨pc, rfl, h.2.2.le⟩
    · exact ⟨m, hm, le_rfl⟩
  | _ => exact NoDecrease.refl _

/-- A change of an entry to a number other than the sentinel is a store of a pc above the
local's stored maximum, which becomes that pc. -/
theorem store_apply {rows : FrameRows} {i : Nat} {op : FrameOp} {e : Int}
    (he : (op.apply frameLifetime rows).entry i = some e) (hne : e ≠ frameLifetime)
    (hch : (op.apply frameLifetime rows).entry i ≠ rows.entry i) :
    (op.apply frameLifetime rows).maxEntry i = some e ∧
      ∀ m, rows.maxEntry i = some m → m < e := by
  cases op with
  | instruction pc =>
    simp only [entry_apply_instruction, maxEntry_apply_instruction] at he hch ⊢
    split_ifs at he hch ⊢ with h
    · cases he
      refine ⟨rfl, fun m hm => ?_⟩
      exact (by simpa [takesEnd, hm, isUnsetOrBelow] using h.2 : _ ∧ m < e).2
    · exact absurd rfl hch
  | enter params =>
    simp only [entry_apply_enter] at he hch
    split_ifs at he hch <;> simp_all
  | access localIndex =>
    simp only [entry_apply_access] at he hch
    split_ifs at he hch <;> simp_all

/-- One step of the reader either leaves the rows of `f` alone or applies an operation. -/
theorem step_frameRows_cases (s : TraceState) (event : JSONTraceEvent) (f : Int) :
    (s.step frameLifetime event).frameRows f = s.frameRows f ∨
      ∃ op, event.frameOp? f s.frameIDs = some op ∧
        (s.step frameLifetime event).frameRows f = op.apply frameLifetime (s.frameRows f) := by
  rw [step_frameRows]
  cases event.frameOp? f s.frameIDs with
  | none => exact .inl rfl
  | some op => exact .inr ⟨op, rfl, rfl⟩

theorem step_maxInv {s : TraceState} {f : Int} {i : Nat}
    (h : (s.frameRows f).MaxInv frameLifetime i) (event : JSONTraceEvent) :
    ((s.step frameLifetime event).frameRows f).MaxInv frameLifetime i := by
  rcases step_frameRows_cases frameLifetime s event f with hs | ⟨op, -, hs⟩ <;> rw [hs]
  · exact h
  · exact maxInv_apply frameLifetime h op

theorem step_noDecrease (s : TraceState) (event : JSONTraceEvent) (f : Int) (i : Nat) :
    NoDecrease ((s.frameRows f).maxEntry i)
      (((s.step frameLifetime event).frameRows f).maxEntry i) := by
  rcases step_frameRows_cases frameLifetime s event f with hs | ⟨op, -, hs⟩ <;> rw [hs]
  · exact NoDecrease.refl _
  · exact noDecrease_apply frameLifetime _ i op

theorem maxInv_frameRun {rows : FrameRows} {i : Nat} (h : rows.MaxInv frameLifetime i)
    (ops : List FrameOp) : (frameRun frameLifetime rows ops).MaxInv frameLifetime i := by
  induction ops generalizing rows with
  | nil => exact h
  | cons op ops ih => exact ih (maxInv_apply frameLifetime h op)

theorem NoDecrease.trans {a b c : Option Int} (hab : NoDecrease a b) (hbc : NoDecrease b c) :
    NoDecrease a c := fun m hm => by
  obtain ⟨m', hm', hle⟩ := hab m hm
  obtain ⟨m'', hm'', hle'⟩ := hbc m' hm'
  exact ⟨m'', hm'', hle.trans hle'⟩

theorem noDecrease_frameRun (rows : FrameRows) (i : Nat) (ops : List FrameOp) :
    NoDecrease (rows.maxEntry i) ((frameRun frameLifetime rows ops).maxEntry i) := by
  induction ops generalizing rows with
  | nil => exact NoDecrease.refl _
  | cons op ops ih => exact (noDecrease_apply frameLifetime rows i op).trans (ih _)

/-- Every state the walk reaches satisfies the invariant. -/
theorem run_maxInv (events : List JSONTraceEvent) (f : Int) (i : Nat) :
    ((TraceState.init.run frameLifetime events).frameRows f).MaxInv frameLifetime i := by
  rw [run_frameRows]
  exact maxInv_frameRun frameLifetime
    (fun e he => by simp [TraceState.frameRows, TraceState.init, FrameRows.entry] at he) _

/-- How one step may change the end of lifetime of local `i` of frame `f`: it keeps it,
stores the pc of an `Instruction` executed while `f` is innermost, or resets it to the
sentinel at an `OpenFrame` of `f` declaring parameter `i` or at a `Read` or `Write` resolving
to `(f, i)`. -/
def EndChange (s : TraceState) (event : JSONTraceEvent) (f : Int) (i : Nat) : Prop :=
  let e' := ((s.step frameLifetime event).frameRows f).entry i
  e' = (s.frameRows f).entry i ∨
  (∃ pc, event.view = .instruction pc ∧ s.frameIDs.head? = some f ∧ e' = some pc) ∨
  (e' = some frameLifetime ∧
    ((∃ frame, event.view = .openFrame frame ∧ frame.frame_id = f ∧
        i < frame.parameters.length) ∨
      event.access? s.frameIDs = some (f, i)))

theorem step_endChange (s : TraceState) (event : JSONTraceEvent) (f : Int) (i : Nat) :
    EndChange frameLifetime s event f i := by
  unfold EndChange
  rcases step_frameRows_cases frameLifetime s event f with hs | ⟨op, hop, hs⟩ <;> rw [hs]
  · exact .inl rfl
  rcases frameOp?_eq_some.mp hop with ⟨frame, hv, hf, rfl⟩ | ⟨pc, hv, hhead, rfl⟩ |
    ⟨localIndex, hacc, rfl⟩
  · rw [entry_apply_enter]
    split_ifs with hi
    · exact .inr (.inr ⟨rfl, .inl ⟨frame, hv, hf, hi⟩⟩)
    · exact .inl rfl
  · rw [entry_apply_instruction]
    split_ifs
    · exact .inr (.inl ⟨pc, hv, hhead, rfl⟩)
    · exact .inl rfl
  · rw [entry_apply_access]
    split_ifs with hi
    · exact .inr (.inr ⟨rfl, .inr (hi ▸ hacc)⟩)
    · exact .inl rfl

/-- The ends of lifetime other than the sentinel that the walk stores for local `i` of
frame `f`, in order. The `Instruction` branch stores only into an unset or live entry, so
each store of such a value is a change of the entry to it. -/
def storedEnds (f : Int) (i : Nat) (s : TraceState) : List JSONTraceEvent → List Int
  | [] => []
  | event :: events =>
    let e := (s.frameRows f).entry i
    let e' := ((s.step frameLifetime event).frameRows f).entry i
    (match e' with
      | some v => if e' ≠ e ∧ v ≠ frameLifetime then [v] else []
      | none => []) ++ storedEnds f i (s.step frameLifetime event) events

/-- From a state with the invariant, the stored ends strictly increase and all exceed the
current maximum. -/
theorem storedEnds_above_sorted (f : Int) (i : Nat) (events : List JSONTraceEvent)
    (s : TraceState) (h : (s.frameRows f).MaxInv frameLifetime i) :
    (∀ e ∈ storedEnds frameLifetime f i s events,
      ∀ m, (s.frameRows f).maxEntry i = some m → m < e) ∧
    (storedEnds frameLifetime f i s events).Sorted (· < ·) := by
  induction events generalizing s with
  | nil => simp [storedEnds]
  | cons event events ih =>
    obtain ⟨habove, hsorted⟩ := ih (s.step frameLifetime event) (step_maxInv frameLifetime h event)
    have hno := step_noDecrease frameLifetime s event f i
    have hrest : ∀ x ∈ storedEnds frameLifetime f i (s.step frameLifetime event) events,
        ∀ m, (s.frameRows f).maxEntry i = some m → m < x := fun x hx m hm => by
      obtain ⟨m', hm', hle⟩ := hno m hm
      exact lt_of_le_of_lt hle (habove x hx m' hm')
    simp only [storedEnds]
    split
    · rename_i v hv
      split_ifs with hch
      · have hstore : ((s.step frameLifetime event).frameRows f).maxEntry i = some v ∧
            ∀ m, (s.frameRows f).maxEntry i = some m → m < v := by
          rcases step_frameRows_cases frameLifetime s event f with hs | ⟨op, -, hs⟩
          · exact absurd (hs ▸ rfl) hch.1
          · rw [hs] at hv hch ⊢
            exact store_apply frameLifetime hv hch.2 hch.1
        refine ⟨?_, List.sorted_cons.mpr ⟨fun x hx => habove x hx v hstore.1, hsorted⟩⟩
        simp only [List.singleton_append, List.mem_cons, forall_eq_or_imp]
        exact ⟨hstore.2, hrest⟩
      · exact ⟨hrest, hsorted⟩
    · exact ⟨hrest, hsorted⟩

/-- The stored ends of lifetime strictly increase, over every trace and for every local of
every frame: every step keeps an entry, stores a pc of the innermost frame's instruction, or
resets it to the sentinel at an `OpenFrame` parameter or a resolved `Read` or `Write`; a
stored end other than the sentinel is always the local's stored maximum; and the stored
maximum never decreases. -/
theorem storedEnds_strictly_increasing (events : List JSONTraceEvent) (f : Int) (i : Nat) :
    (storedEnds frameLifetime f i TraceState.init events).Sorted (· < ·) ∧
    (∀ (s : TraceState) (event : JSONTraceEvent), EndChange frameLifetime s event f i) ∧
    ((TraceState.init.run frameLifetime events).frameRows f).MaxInv frameLifetime i ∧
    ∀ (s : TraceState) (event : JSONTraceEvent), NoDecrease ((s.frameRows f).maxEntry i)
      (((s.step frameLifetime event).frameRows f).maxEntry i) :=
  ⟨(storedEnds_above_sorted frameLifetime f i events _
      (by simpa using run_maxInv frameLifetime [] f i)).2,
    fun s event => step_endChange frameLifetime s event f i,
    run_maxInv frameLifetime events f i,
    fun s event => step_noDecrease frameLifetime s event f i⟩

end

end TraceAdapter
