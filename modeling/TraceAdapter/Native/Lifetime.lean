import Mathlib.Logic.Function.Basic
import TraceAdapter.Core.SparseArray
import TraceAdapter.Native.Schema

/-!
# Lifetime bookkeeping of the trace reader

The pieces of `readTrace` that write the two lifetime tables: the parameter
loop of the `OpenFrame` branch, the loop over the current frame's locals in the
`Instruction` branch, and `processJSONLocation`. The sentinel `FRAME_LIFETIME`
is declared in `utils.ts`, which is absent from the sources, so it is the
parameter `frameLifetime` throughout.
-/

namespace TraceAdapter

/-- `localLifetimeEnds.get(key) || []`. -/
def lifetimeRow (table : LifetimeTable) (key : Option Int) : List (Option Int) :=
  (table key).getD []

/-- The entry of local `i` in the row of `key`; `undefined` where the row has none. -/
def lifetimeEntry (table : LifetimeTable) (key : Option Int) (i : Nat) : Option Int :=
  Sparse.get (lifetimeRow table key) i

@[simp] theorem lifetimeRow_update (table : LifetimeTable) (key key' : Option Int)
    (row : List (Option Int)) :
    lifetimeRow (Function.update table key (some row)) key' =
      if key' = key then row else lifetimeRow table key' := by
  unfold lifetimeRow
  split_ifs with h
  · subst h; simp
  · simp [Function.update_noteq h]

/-- The local `(frameId, localIndex)` that `processJSONLocation` resolves a location to when
the current frame is `currentFrameID`: the `Local` the location names, or the base `Local` of
an `Indexed` location into the current frame. -/
def JSONTraceLocation.resolve (location : JSONTraceLocation) (currentFrameID : Option Int) :
    Option (Int × Nat) :=
  match location with
  | .Local frameId localIndex => some (frameId, localIndex)
  | .Indexed frameId localIndex =>
    if some frameId = currentFrameID then some (frameId, localIndex) else none

section

variable (frameLifetime : Int)

/-- `x === undefined || x === FRAME_LIFETIME`: no end of lifetime was set, or the local is
live. -/
def isUnsetOrLive (x : Option Int) : Bool :=
  match x with
  | none => true
  | some e => e == frameLifetime

/-- `x === undefined || x < pc`. -/
def isUnsetOrBelow (pc : Int) (x : Option Int) : Bool :=
  match x with
  | none => true
  | some m => decide (m < pc)

/-- Whether the `Instruction` branch at `pc` stores `pc` for a local whose end of lifetime is
`e` and whose largest stored end is `m`. -/
def takesEnd (pc : Int) (e m : Option Int) : Bool :=
  isUnsetOrLive frameLifetime e && isUnsetOrBelow pc m

/-- One iteration of the loop over the locals in the `Instruction` branch:
`lifetimeEnds[i] = pc; lifetimeEndsMax[i] = pc` under the two nested tests. -/
def updateLifetimeEnd (pc : Int) (tables : List (Option Int) × List (Option Int)) (i : Nat) :
    List (Option Int) × List (Option Int) :=
  if takesEnd frameLifetime pc (Sparse.get tables.1 i) (Sparse.get tables.2 i) then
    (Sparse.set tables.1 i pc, Sparse.set tables.2 i pc)
  else tables

/-- The loop `for (let i = 0; i < lifetimeEnds.length; i++)` of the `Instruction` branch. The
body never writes past the end of `lifetimeEnds`, so the bound is the initial length. -/
def updateLifetimeEnds (pc : Int) (lifetimeEnds lifetimeEndsMax : List (Option Int)) :
    List (Option Int) × List (Option Int) :=
  (List.range lifetimeEnds.length).foldl (updateLifetimeEnd frameLifetime pc)
    (lifetimeEnds, lifetimeEndsMax)

/-- `lifetimeEnds[localIndex] = FRAME_LIFETIME; localLifetimeEnds.set(frameId, lifetimeEnds)`. -/
def markLive (localLifetimeEnds : LifetimeTable) (frameId : Int) (localIndex : Nat) :
    LifetimeTable :=
  Function.update localLifetimeEnds (some frameId)
    (some (Sparse.set (lifetimeRow localLifetimeEnds (some frameId)) localIndex frameLifetime))

/-- `processJSONLocation`: marks the local a location names live and returns its index; an
`Indexed` location is resolved only into a local of the current frame. -/
def processJSONLocation (location : JSONTraceLocation) (localLifetimeEnds : LifetimeTable)
    (currentFrameID : Option Int) : Option Nat × LifetimeTable :=
  match location with
  | .Local frameId localIndex =>
    (some localIndex, markLive frameLifetime localLifetimeEnds frameId localIndex)
  | .Indexed frameId localIndex =>
    if some frameId = currentFrameID then
      (some localIndex, markLive frameLifetime localLifetimeEnds frameId localIndex)
    else (none, localLifetimeEnds)

/-- The state of the loop after its first `n` iterations: exactly the locals below `n` that
the test selects on the original rows take `pc`. -/
theorem foldl_updateLifetimeEnd {pc : Int} {lifetimeEnds lifetimeEndsMax : List (Option Int)}
    {n : Nat} (hn : n ≤ lifetimeEnds.length) :
    let tables := (List.range n).foldl (updateLifetimeEnd frameLifetime pc)
      (lifetimeEnds, lifetimeEndsMax)
    tables.1.length = lifetimeEnds.length ∧
    ∀ j, (Sparse.get tables.1 j, Sparse.get tables.2 j) =
      if j < n ∧ takesEnd frameLifetime pc (Sparse.get lifetimeEnds j)
          (Sparse.get lifetimeEndsMax j) then (some pc, some pc)
      else (Sparse.get lifetimeEnds j, Sparse.get lifetimeEndsMax j) := by
  induction n with
  | zero => simp
  | succ n ih =>
    obtain ⟨hlen, hget⟩ := ih (by omega)
    simp only [List.range_succ, List.foldl_append, List.foldl_cons, List.foldl_nil]
    generalize (List.range n).foldl (updateLifetimeEnd frameLifetime pc)
      (lifetimeEnds, lifetimeEndsMax) = tables at hlen hget ⊢
    have hn' := Prod.ext_iff.mp (hget n)
    simp only [lt_irrefl, false_and, if_false] at hn'
    rw [updateLifetimeEnd, hn'.1, hn'.2]
    split_ifs with htake
    · refine ⟨by simp [hlen]; omega, fun j => ?_⟩
      simp only [Sparse.get_set]
      by_cases hj : j = n
      · subst hj; simp [htake]
      · rw [if_neg hj, if_neg hj, hget j]
        simp only [show j < n + 1 ↔ j < n by omega]
    · refine ⟨hlen, fun j => ?_⟩
      rw [hget j]
      by_cases hj : j = n
      · subst hj; simp [htake]
      · simp only [show j < n + 1 ↔ j < n by omega]

/-- After the loop, exactly the locals that the test selects on the original rows hold `pc`,
in both rows, and the row of ends keeps its length. -/
theorem updateLifetimeEnds_spec (pc : Int) (lifetimeEnds lifetimeEndsMax : List (Option Int)) :
    let tables := updateLifetimeEnds frameLifetime pc lifetimeEnds lifetimeEndsMax
    tables.1.length = lifetimeEnds.length ∧
    ∀ j, (Sparse.get tables.1 j, Sparse.get tables.2 j) =
      if j < lifetimeEnds.length ∧ takesEnd frameLifetime pc (Sparse.get lifetimeEnds j)
          (Sparse.get lifetimeEndsMax j) then (some pc, some pc)
      else (Sparse.get lifetimeEnds j, Sparse.get lifetimeEndsMax j) :=
  foldl_updateLifetimeEnd frameLifetime le_rfl

@[simp] theorem get_updateLifetimeEnds_fst (pc : Int) (lifetimeEnds lifetimeEndsMax : List (Option Int))
    (j : Nat) :
    Sparse.get (updateLifetimeEnds frameLifetime pc lifetimeEnds lifetimeEndsMax).1 j =
      if j < lifetimeEnds.length ∧ takesEnd frameLifetime pc (Sparse.get lifetimeEnds j)
          (Sparse.get lifetimeEndsMax j) then some pc
      else Sparse.get lifetimeEnds j := by
  have h := congrArg Prod.fst ((updateLifetimeEnds_spec frameLifetime pc lifetimeEnds
    lifetimeEndsMax).2 j)
  split_ifs at h ⊢ <;> exact h

@[simp] theorem get_updateLifetimeEnds_snd (pc : Int) (lifetimeEnds lifetimeEndsMax : List (Option Int))
    (j : Nat) :
    Sparse.get (updateLifetimeEnds frameLifetime pc lifetimeEnds lifetimeEndsMax).2 j =
      if j < lifetimeEnds.length ∧ takesEnd frameLifetime pc (Sparse.get lifetimeEnds j)
          (Sparse.get lifetimeEndsMax j) then some pc
      else Sparse.get lifetimeEndsMax j := by
  have h := congrArg Prod.snd ((updateLifetimeEnds_spec frameLifetime pc lifetimeEnds
    lifetimeEndsMax).2 j)
  split_ifs at h ⊢ <;> exact h

@[simp] theorem length_updateLifetimeEnds_fst (pc : Int)
    (lifetimeEnds lifetimeEndsMax : List (Option Int)) :
    (updateLifetimeEnds frameLifetime pc lifetimeEnds lifetimeEndsMax).1.length =
      lifetimeEnds.length :=
  (updateLifetimeEnds_spec frameLifetime pc lifetimeEnds lifetimeEndsMax).1

@[simp] theorem lifetimeRow_markLive (table : LifetimeTable) (frameId : Int) (localIndex : Nat)
    (key : Option Int) :
    lifetimeRow (markLive frameLifetime table frameId localIndex) key =
      if key = some frameId then
        Sparse.set (lifetimeRow table (some frameId)) localIndex frameLifetime
      else lifetimeRow table key := by
  simp [markLive]

/-- `processJSONLocation` marks live exactly the local its location resolves to. -/
theorem processJSONLocation_eq (location : JSONTraceLocation) (table : LifetimeTable)
    (currentFrameID : Option Int) :
    processJSONLocation frameLifetime location table currentFrameID =
      match location.resolve currentFrameID with
      | some (frameId, localIndex) =>
        (some localIndex, markLive frameLifetime table frameId localIndex)
      | none => (none, table) := by
  cases location with
  | Local frameId localIndex => rfl
  | Indexed frameId localIndex =>
    simp only [processJSONLocation, JSONTraceLocation.resolve]
    split_ifs <;> rfl

end

end TraceAdapter
