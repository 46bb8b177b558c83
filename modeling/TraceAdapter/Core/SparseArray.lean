import Mathlib.Data.List.Basic

/-!
# JavaScript arrays with holes

The lifetime tables of the trace reader are JavaScript arrays written at
arbitrary indices. An assignment past the end pads the array with holes, and a
hole reads as `undefined`. An array is a list of optional entries, `none` being
a hole; `Sparse.get` and `Sparse.set` are the read `a[i]` and the assignment
`a[i] = v`, and the array's length is the list's length.
-/

namespace TraceAdapter

namespace Sparse

variable {α : Type}

/-- The read `a[i]`: `undefined` at a hole and past the end. -/
def get (a : List (Option α)) (i : Nat) : Option α := a[i]?.join

/-- The assignment `a[i] = v`; past the end it first pads the array with holes. -/
def set (a : List (Option α)) (i : Nat) (v : α) : List (Option α) :=
  if i < a.length then a.set i (some v)
  else a ++ List.replicate (i - a.length) none ++ [some v]

/-- The loop `for (let i = 0; i < n; i++) a[i] = v`. -/
def fill (a : List (Option α)) (n : Nat) (v : α) : List (Option α) :=
  (List.range n).foldl (fun a i => set a i v) a

@[simp] theorem get_nil (i : Nat) : get ([] : List (Option α)) i = none := rfl

theorem get_append (a b : List (Option α)) (j : Nat) :
    get (a ++ b) j = if j < a.length then get a j else get b (j - a.length) := by
  unfold get
  split_ifs with h
  · rw [List.getElem?_append_left h]
  · rw [List.getElem?_append_right (by omega)]

@[simp] theorem get_replicate_none (n j : Nat) :
    get (List.replicate n (none : Option α)) j = none := by
  simp [get, List.getElem?_replicate]

@[simp] theorem get_singleton (x : Option α) (j : Nat) :
    get [x] j = if j = 0 then x else none := by
  cases j <;> simp [get]

/-- Past the end every read is `undefined`. -/
theorem get_eq_none_of_le {a : List (Option α)} {j : Nat} (h : a.length ≤ j) : get a j = none := by
  simp [get, List.getElem?_eq_none h]

theorem lt_length_of_get_eq_some {a : List (Option α)} {i : Nat} {v : α}
    (h : get a i = some v) : i < a.length := by
  by_contra hi
  rw [get_eq_none_of_le (by omega)] at h
  cases h

/-- An assignment changes the read at its own index only. -/
@[simp] theorem get_set (a : List (Option α)) (i j : Nat) (v : α) :
    get (set a i v) j = if j = i then some v else get a j := by
  unfold set
  split_ifs with hi hj hj
  · subst hj; simp [get, hi]
  · simp [get, List.getElem?_set, Ne.symm hj]
  all_goals
    simp only [get_append, List.length_append, List.length_replicate, get_replicate_none,
      get_singleton]
    split_ifs <;> first | rfl | omega | exact (get_eq_none_of_le (by omega)).symm

/-- An assignment grows the array to just past its index, and never shrinks it. -/
@[simp] theorem length_set (a : List (Option α)) (i : Nat) (v : α) :
    (set a i v).length = max a.length (i + 1) := by
  unfold set; split_ifs <;> simp <;> omega

@[simp] theorem get_fill (a : List (Option α)) (n j : Nat) (v : α) :
    get (fill a n v) j = if j < n then some v else get a j := by
  induction n with
  | zero => simp [fill]
  | succ n ih =>
    simp only [fill, List.range_succ, List.foldl_append, List.foldl_cons, List.foldl_nil] at ih ⊢
    rw [get_set, ih]
    split_ifs <;> first | rfl | omega

@[simp] theorem length_fill (a : List (Option α)) (n : Nat) (v : α) :
    (fill a n v).length = max a.length n := by
  induction n with
  | zero => simp [fill]
  | succ n ih =>
    simp only [fill, List.range_succ, List.foldl_append, List.foldl_cons, List.foldl_nil] at ih ⊢
    rw [length_set, ih]
    omega

end Sparse

end TraceAdapter
