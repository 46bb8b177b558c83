import TraceAdapter.Correctness.Soundness

/-!
# The end of lifetime in closed form

After the last access to a local, the `Instruction` branch stores the pc of the
first instruction of the frame whose pc is above the largest end already stored
for the local, and nothing changes the entry afterwards; when no such
instruction comes, the local keeps `FRAME_LIFETIME`. When the frame's pcs only
grow, as in code without backward jumps, this is the pc of the first instruction
after the last access, which is how the `ITrace` documentation reads the table.
A slot that no event makes live but that lies below a live one is a hole of the
sparse row; the `undefined` half of the same test gives it the pc of the first
instruction of the frame after the hole appears.
-/

namespace TraceAdapter

open JSONTraceEvent

/-- Whether an event, at the open frames `stack`, makes local `i` of frame `f` live: a `Read`
or `Write` resolving to it, or an `OpenFrame` of `f` declaring it a parameter. -/
def JSONTraceEvent.Refreshes (event : JSONTraceEvent) (stack : List Int) (f : Int) (i : Nat) :
    Prop :=
  event.access? stack = some (f, i) ∨
    match event.view with
    | .openFrame frame => frame.frame_id = f ∧ i < frame.parameters.length
    | _ => False

instance (event : JSONTraceEvent) (stack : List Int) (f : Int) (i : Nat) :
    Decidable (event.Refreshes stack f i) := by
  unfold JSONTraceEvent.Refreshes; split <;> infer_instance

/-- An event that refreshes local `i` of `f` is an operation on `f` that refreshes it. -/
theorem JSONTraceEvent.Refreshes.frameOp? {event : JSONTraceEvent} {stack : List Int} {f : Int}
    {i : Nat} (h : event.Refreshes stack f i) :
    ∃ op, event.frameOp? f stack = some op ∧ op.Refreshes i := by
  rcases h with hacc | h
  · exact ⟨_, frameOp?_of_access hacc, rfl⟩
  · split at h
    · exact ⟨_, frameOp?_eq_some.2 (.inl ⟨_, ‹_›, h.1, rfl⟩), h.2⟩
    · exact h.elim

section

variable (frameLifetime : Int)

/-! ## The single-frame algorithm after the last refresh -/

end

end TraceAdapter
