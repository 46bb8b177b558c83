import TraceAdapter.Correctness.Locality
import TraceAdapter.Correctness.Monotone

/-!
# What the lifetime table says about the trace

On a well-formed trace the table has a row for exactly the opened frames, and
an end of lifetime other than the sentinel is the pc of an instruction of that
frame, executed after the frame opened and after the last access to the local.
The bound the loop caveat of `readTrace` aims at holds only in part: an end of
lifetime is at least the pc of the first instruction of the frame after each
access, not at least every pc executed between the first and the last access.
-/

namespace TraceAdapter

open JSONTraceEvent

section

variable (frameLifetime : Int)

/-! ## The rows present -/

/-- Inside a frame no event writes the row of `undefined`: the `Instruction` branch writes the
row of the innermost frame, and the other branches the rows of frame ids. -/
theorem step_localLifetimeEnds_none {s : TraceState} {event : JSONTraceEvent}
    (hok : EventOk s.frameIDs event) :
    (s.step frameLifetime event).localLifetimeEnds none = s.localLifetimeEnds none := by
  rw [step_localLifetimeEnds_none_eq]
  unfold EventOk at hok
  split
  · simp_all
  · rfl

theorem run_localLifetimeEnds_none {s : TraceState} {events : List JSONTraceEvent}
    (hnested : NestedFrom s.frameIDs events) :
    (s.run frameLifetime events).localLifetimeEnds none = s.localLifetimeEnds none := by
  induction events generalizing s with
  | nil => rfl
  | cons event events ih =>
    rw [TraceState.run_cons, ih (by simpa using hnested.2),
      step_localLifetimeEnds_none frameLifetime hnested.1]

/-! ## The entries -/

/-- An end of lifetime other than the sentinel, left by the single-frame algorithm, is the
pc of an instruction after which no access to the local comes. -/
theorem frameRun_entry_stored (ops : List FrameOp) (i : Nat) (e : Int)
    (h : (frameRun frameLifetime ⟨none, none⟩ ops).entry i = some e) (hne : e ≠ frameLifetime) :
    ∃ before after, ops = before ++ .instruction e :: after ∧ FrameOp.access i ∉ after := by
  induction ops using List.reverseRecOn with
  | nil => simp [frameRun, FrameRows.entry] at h
  | append_singleton ops op ih =>
    have extend : ((frameRun frameLifetime ⟨none, none⟩ ops).entry i = some e) →
        op ≠ FrameOp.access i →
        ∃ before after, ops ++ [op] = before ++ .instruction e :: after ∧
          FrameOp.access i ∉ after := fun hprev hop => by
      obtain ⟨before, after, rfl, hafter⟩ := ih hprev
      exact ⟨before, after ++ [op], by simp, by simp [hafter, Ne.symm hop]⟩
    simp only [frameRun, List.foldl_append, List.foldl_cons, List.foldl_nil] at h
    cases op with
    | enter params =>
      rw [entry_apply_enter] at h
      split_ifs at h
      · exact absurd (Option.some.inj h).symm hne
      · exact extend h (by simp)
    | instruction pc =>
      rw [entry_apply_instruction] at h
      split_ifs at h
      · cases h; exact ⟨ops, [], rfl, by simp⟩
      · exact extend h (by simp)
    | access localIndex =>
      rw [entry_apply_access] at h
      split_ifs at h with hi
      · exact absurd (Option.some.inj h).symm hne
      · exact extend h (by simpa [eq_comm] using hi)

/-- On a well-formed trace, the lifetime table has a row for exactly the opened frames, and
an end of lifetime other than the sentinel is the pc of an instruction executed while its
frame is innermost, after the frame's `OpenFrame` and after every `Read` or `Write` resolving
to the local. -/
theorem readTrace_lifetimeEnds_sound (events : List JSONTraceEvent) (hwf : WellFormed events) :
    (∀ key, (readTrace frameLifetime ⟨events⟩).localLifetimeEnds key ≠ none ↔
      ∃ f ∈ openedFrames events, key = some f) ∧
    ∀ f i e, lifetimeEntry (readTrace frameLifetime ⟨events⟩).localLifetimeEnds (some f) i =
        some e → e = frameLifetime ∨
      ∃ before stack event after, annotate [] events = before ++ (stack, event) :: after ∧
        event.view = .instruction e ∧ stack.head? = some f ∧ (∃ p ∈ before, p.2.opens f) ∧
        ∀ q ∈ after, q.2.access? q.1 ≠ some (f, i) := by
  refine ⟨fun key => ?_, fun f i e he => ?_⟩
  · cases key with
    | none => simpa [readTrace, TraceState.init] using
        run_localLifetimeEnds_none frameLifetime (s := TraceState.init) hwf.nested
    | some f =>
      rw [localLifetimeEnds_ne_none_iff]
      simp only [Option.some.injEq, exists_eq_right']
      -- under the premises an accessed frame is open, so it was opened
      refine ⟨fun h => h.elim id fun ⟨q, hq, i, hacc⟩ => ?_, .inl⟩
      exact mem_openedFrames_of_mem_annotate hq
        (access_mem (eventOk_of_mem_annotate hwf.nested hq) hacc)
  refine or_iff_not_imp_left.2 fun hne => ?_
  obtain ⟨ops₁, ops₂, hops, hafter⟩ := frameRun_entry_stored frameLifetime _ i e
    ((lifetimeEntry_readTrace frameLifetime events f i).symm.trans he) hne
  rw [frameProjection_eq_filterMap, List.filterMap_eq_append_iff] at hops
  obtain ⟨l₁, l₂, hl, -, hl₂⟩ := hops
  obtain ⟨l₃, x, l₄, rfl, -, hx, hl₄⟩ := List.filterMap_eq_cons_iff.mp hl₂
  rcases frameOp?_eq_some.mp hx with ⟨_, _, _, h⟩ | ⟨pc, hv, hhead, h⟩ | ⟨_, _, h⟩ <;>
    cases h
  have hstack := annotate_eq_append_cons (hl.trans (List.append_assoc _ _ _).symm)
  obtain h | h := mem_frameStack (hstack ▸ List.mem_of_mem_head? hhead)
  · simp at h
  obtain ⟨event, hmem, hopens⟩ := mem_openedFrames.mp h
  obtain ⟨p, hp, rfl⟩ := List.mem_map.mp hmem
  refine ⟨l₁ ++ l₃, x.1, x.2, l₄, by simpa using hl, hv, hhead, ⟨p, hp, hopens⟩,
    fun q hq hacc => hafter ?_⟩
  rw [← hl₄]
  exact List.mem_filterMap.mpr ⟨q, hq, frameOp?_of_access hacc⟩

/-! ## The bound across loops -/

/-- Whether an operation makes local `i` live: an `OpenFrame` declaring it a parameter, or an
access to it. -/
def FrameOp.Refreshes (i : Nat) : FrameOp → Prop
  | .enter params => i < params
  | .instruction _ => False
  | .access localIndex => localIndex = i

theorem entry_apply_of_refreshes {op : FrameOp} {i : Nat} (hop : op.Refreshes i)
    (rows : FrameRows) : (op.apply frameLifetime rows).entry i = some frameLifetime := by
  cases op with
  | enter params => simp [FrameOp.Refreshes] at hop; simp [hop]
  | instruction pc => exact hop.elim
  | access localIndex => simp [FrameOp.Refreshes] at hop; simp [hop]

/-- Without instructions, a live local stays live. -/
theorem entry_frameRun_live {rows : FrameRows} {i : Nat} {ops : List FrameOp}
    (hops : ∀ op ∈ ops, ∀ pc, op ≠ .instruction pc)
    (h : rows.entry i = some frameLifetime) :
    (frameRun frameLifetime rows ops).entry i = some frameLifetime := by
  induction ops generalizing rows with
  | nil => exact h
  | cons op ops ih =>
    refine ih (fun op' hop' => hops op' (List.mem_cons_of_mem _ hop')) ?_
    cases op with
    | enter params => rw [entry_apply_enter]; split_ifs <;> simp [h]
    | instruction pc => exact absurd rfl (hops _ (List.mem_cons_self _ _) pc)
    | access localIndex => rw [entry_apply_access]; split_ifs <;> simp [h]

/-- An instruction of the frame while a local is live leaves a stored maximum of at least its
pc. -/
theorem maxEntry_apply_instruction_live {rows : FrameRows} {i : Nat}
    (h : rows.entry i = some frameLifetime) (pc : Int) :
    ∃ m, ((FrameOp.instruction pc).apply frameLifetime rows).maxEntry i = some m ∧ pc ≤ m := by
  have hi : i < (rows.ends.getD []).length := Sparse.lt_length_of_get_eq_some h
  rw [maxEntry_apply_instruction]
  split_ifs with htake
  · exact ⟨pc, rfl, le_rfl⟩
  · simp only [hi, true_and, takesEnd, h, isUnsetOrLive, beq_self_eq_true, Bool.true_and] at htake
    rcases hm : rows.maxEntry i with _ | m
    · simp [hm, isUnsetOrBelow] at htake
    · simp only [hm, isUnsetOrBelow, decide_eq_true_eq, not_lt] at htake
      exact ⟨m, rfl, htake⟩

/-- In the single-frame algorithm, a final end of lifetime other than the sentinel is at least
the pc of the first instruction after any refresh of the local. -/
theorem frameRun_entry_ge (before mid after : List FrameOp) (op : FrameOp) (i : Nat) (pc e : Int)
    (hop : op.Refreshes i) (hmid : ∀ o ∈ mid, ∀ pc', o ≠ .instruction pc')
    (h : (frameRun frameLifetime ⟨none, none⟩
      (before ++ op :: mid ++ .instruction pc :: after)).entry i = some e)
    (hne : e ≠ frameLifetime) : pc ≤ e := by
  simp only [frameRun, List.foldl_append, List.foldl_cons] at h
  have hlive := entry_frameRun_live frameLifetime hmid (entry_apply_of_refreshes frameLifetime hop
    (frameRun frameLifetime ⟨none, none⟩ before))
  obtain ⟨m, hm, hpc⟩ := maxEntry_apply_instruction_live frameLifetime hlive pc
  obtain ⟨m', hm', hle⟩ := noDecrease_frameRun frameLifetime _ i after m hm
  have hinv := @maxInv_frameRun frameLifetime ⟨none, none⟩ i
    (fun e he => by simp [FrameRows.entry] at he)
    (before ++ op :: mid ++ .instruction pc :: after)
  simp only [frameRun, List.foldl_append, List.foldl_cons] at hinv
  have := (hinv e h hne).symm.trans hm'
  cases this
  exact hpc.trans hle

/-- A final end of lifetime other than the sentinel is at least the pc of the first
instruction of its frame after any `Read` or `Write` of the local, or after the `OpenFrame`
declaring it a parameter. -/
theorem lifetimeEnd_ge_next_instruction (events : List JSONTraceEvent) (f : Int) (i : Nat)
    (pc e : Int) (before mid after : List (List Int × JSONTraceEvent))
    (refresh instr : List Int × JSONTraceEvent)
    (h : annotate [] events = before ++ refresh :: mid ++ instr :: after)
    (hrefresh : refresh.2.access? refresh.1 = some (f, i) ∨ ∃ frame,
      refresh.2.view = .openFrame frame ∧ frame.frame_id = f ∧ i < frame.parameters.length)
    (hinstr : instr.2.view = .instruction pc) (hhead : instr.1.head? = some f)
    (hmid : ∀ q ∈ mid, ∀ pc', q.2.view = .instruction pc' → q.1.head? ≠ some f)
    (he : lifetimeEntry (readTrace frameLifetime ⟨events⟩).localLifetimeEnds (some f) i = some e)
    (hne : e ≠ frameLifetime) : pc ≤ e := by
  obtain ⟨op, hop, hrefreshes⟩ : ∃ op, refresh.2.frameOp? f refresh.1 = some op ∧
      op.Refreshes i := by
    rcases hrefresh with hacc | ⟨frame, hv, hf, hi⟩
    · exact ⟨_, frameOp?_of_access hacc, rfl⟩
    · exact ⟨_, frameOp?_eq_some.mpr (.inl ⟨frame, hv, hf, rfl⟩), hi⟩
  have hins : instr.2.frameOp? f instr.1 = some (.instruction pc) :=
    frameOp?_eq_some.mpr (.inr (.inl ⟨pc, hinstr, hhead, rfl⟩))
  have hmid' : ∀ o ∈ mid.filterMap (fun p => p.2.frameOp? f p.1), ∀ pc',
      o ≠ .instruction pc' := by
    rintro o ho pc' rfl
    obtain ⟨q, hq, hqop⟩ := List.mem_filterMap.mp ho
    rcases frameOp?_eq_some.mp hqop with ⟨_, _, _, h⟩ | ⟨_, hv, hq', h⟩ | ⟨_, _, h⟩ <;>
      cases h
    exact hmid q hq _ hv hq'
  rw [lifetimeEntry_readTrace, frameProjection_eq_filterMap, h] at he
  simp only [List.filterMap_append, List.filterMap_cons, hop, hins] at he
  exact frameRun_entry_ge frameLifetime _ _ _ op i pc e hrefreshes hmid'
    (by simpa only [List.append_assoc, List.cons_append] using he) hne

end

/-- In a loop `10, 20` whose second pass reads the parameter and then runs `15`, the end of
lifetime is at least `15`. -/
theorem lifetimeEnd_ge_next_instruction_loop :
    annotate [] [openFrameOf 1 [42], instructionAt 10, instructionAt 20, instructionAt 10,
        readOf (.Local 1 0), instructionAt 15, closeFrameOf 1] =
      [([], openFrameOf 1 [42]), ([1], instructionAt 10), ([1], instructionAt 20),
        ([1], instructionAt 10)] ++ ([1], readOf (.Local 1 0)) :: [] ++
        ([1], instructionAt 15) :: [([1], closeFrameOf 1)] ∧
    lifetimeEntry (readTrace (-1) ⟨[openFrameOf 1 [42], instructionAt 10, instructionAt 20,
      instructionAt 10, readOf (.Local 1 0), instructionAt 15, closeFrameOf 1]⟩).localLifetimeEnds
      (some 1) 0 = some 15 ∧ (15 : Int) ≤ 15 :=
  ⟨rfl, by decide, lifetimeEnd_ge_next_instruction (-1) [openFrameOf 1 [42], instructionAt 10,
    instructionAt 20, instructionAt 10, readOf (.Local 1 0), instructionAt 15, closeFrameOf 1]
    1 0 15 15 [([], openFrameOf 1 [42]), ([1], instructionAt 10), ([1], instructionAt 20),
      ([1], instructionAt 10)] [] [([1], closeFrameOf 1)] ([1], readOf (.Local 1 0))
    ([1], instructionAt 15) rfl (.inl rfl) rfl rfl (by simp) (by decide) (by decide)⟩

/-- The loop bound of the lifetime comment fails: in the same loop the instruction at `20`
runs in frame `1` after its entry and before the read, yet the end of lifetime is `15`. -/
theorem readTrace_loop_lifetime_below_body :
    WellFormed [openFrameOf 1 [42], instructionAt 10, instructionAt 20, instructionAt 10,
      readOf (.Local 1 0), instructionAt 15, closeFrameOf 1] ∧
    (annotate [] [openFrameOf 1 [42], instructionAt 10, instructionAt 20, instructionAt 10,
      readOf (.Local 1 0), instructionAt 15, closeFrameOf 1])[2]? =
      some ([1], instructionAt 20) ∧
    (readTrace (-1) ⟨[openFrameOf 1 [42], instructionAt 10, instructionAt 20, instructionAt 10,
      readOf (.Local 1 0), instructionAt 15, closeFrameOf 1]⟩).localLifetimeEnds (some 1) =
      some [some 15] :=
  ⟨by decide, rfl, by decide⟩

/-- In a call that writes its parameter at pc `0`, the table's only row is the called frame's, and
every end in it is the sentinel or the pc of an instruction after the write. -/
theorem readTrace_lifetimeEnds_sound_write :
    WellFormed [openFrameOf 1 [42], instructionAt 0, writeOf (.Local 1 0) 43, instructionAt 1,
      closeFrameOf 1] ∧
    ((∀ key, (readTrace (-1) ⟨[openFrameOf 1 [42], instructionAt 0, writeOf (.Local 1 0) 43,
        instructionAt 1, closeFrameOf 1]⟩).localLifetimeEnds key ≠ none ↔
      ∃ f ∈ openedFrames [openFrameOf 1 [42], instructionAt 0, writeOf (.Local 1 0) 43,
        instructionAt 1, closeFrameOf 1], key = some f) ∧
    ∀ f i e, lifetimeEntry (readTrace (-1) ⟨[openFrameOf 1 [42], instructionAt 0,
        writeOf (.Local 1 0) 43, instructionAt 1, closeFrameOf 1]⟩).localLifetimeEnds
        (some f) i = some e → e = -1 ∨
      ∃ before stack event after, annotate [] [openFrameOf 1 [42], instructionAt 0,
          writeOf (.Local 1 0) 43, instructionAt 1, closeFrameOf 1] =
          before ++ (stack, event) :: after ∧
        event.view = .instruction e ∧ stack.head? = some f ∧ (∃ p ∈ before, p.2.opens f) ∧
        ∀ q ∈ after, q.2.access? q.1 ≠ some (f, i)) := by
  have hwf : WellFormed [openFrameOf 1 [42], instructionAt 0, writeOf (.Local 1 0) 43,
      instructionAt 1, closeFrameOf 1] := by decide
  exact ⟨hwf, readTrace_lifetimeEnds_sound (-1) _ hwf⟩

end TraceAdapter
