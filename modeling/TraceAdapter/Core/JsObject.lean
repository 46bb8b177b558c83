import Mathlib.Data.List.Sort

/-!
# Property order of objects built by `JSON.parse`

A compound trace value lists its fields as a JSON object. `JSON.parse` creates
one property per member in document order, a repeated key keeping its first
place and its last value, and `Object.entries` then enumerates the properties
in the language's `OrdinaryOwnPropertyKeys` order: the keys that are array
indices first, in ascending numeric order, then the other keys in creation
order. An object is modelled by its members in document order, so these two
steps are the functions `createProperties` and `objectEntries`.
-/

namespace TraceAdapter

/-- The number a string of decimal digits denotes, or `none` if some character is not a digit. -/
def decimalValue (cs : List Char) : Option Nat :=
  cs.foldl (fun acc c => acc.bind fun n =>
    if c.isDigit then some (10 * n + (c.toNat - '0'.toNat)) else none) (some 0)

/-- The index a property key denotes when it is an array index: the canonical decimal
numeral of an integer below `2 ^ 32 - 1`. -/
def arrayIndex? (key : String) : Option Nat :=
  match key.toList with
  | [] => none
  | ['0'] => some 0
  | '0' :: _ => none
  | cs => (decimalValue cs).filter (· < 4294967295)

/-- Whether a property key is an array index. -/
def isArrayIndex (key : String) : Bool := (arrayIndex? key).isSome

example : arrayIndex? "10" = some 10 := by decide
example : arrayIndex? "010" = none := by decide

variable {α β : Type}

/-- `CreateDataProperty` as `JSON.parse` applies it to one member: a key already present keeps
its place and takes the new value, a new key is appended. -/
def defineProperty (props : List (String × α)) (member : String × α) : List (String × α) :=
  if props.any (·.1 == member.1) then
    props.map fun p => if p.1 = member.1 then member else p
  else props ++ [member]

/-- The own properties, in creation order, of the object `JSON.parse` builds from the members
of a JSON object text. -/
def createProperties (members : List (String × α)) : List (String × α) :=
  members.foldl defineProperty []

/-- The order of `OrdinaryOwnPropertyKeys` between two array-index keys. -/
def indexLe (p q : String × α) : Prop := (arrayIndex? p.1).getD 0 ≤ (arrayIndex? q.1).getD 0

instance : DecidableRel (@indexLe α) := fun _ _ => inferInstanceAs (Decidable (_ ≤ _))

instance : IsTotal (String × α) indexLe := ⟨fun _ _ => le_total _ _⟩

instance : IsTrans (String × α) indexLe := ⟨fun _ _ _ => le_trans⟩

/-- `Object.entries` of the object `JSON.parse` builds from `members`: the array-index keys in
ascending numeric order, then the other keys in creation order. -/
def objectEntries (members : List (String × α)) : List (String × α) :=
  let props := createProperties members
  (props.filter (isArrayIndex ·.1)).insertionSort indexLe ++ props.filter (!isArrayIndex ·.1)

/-- Applying a function to every value of a pair list, keeping the keys. -/
def mapValues (f : α → β) (members : List (String × α)) : List (String × β) :=
  members.map fun p => (p.1, f p.2)

@[simp] theorem mapValues_nil (f : α → β) : mapValues f [] = [] := rfl

@[simp] theorem mapValues_cons (f : α → β) (p : String × α) (ps : List (String × α)) :
    mapValues f (p :: ps) = (p.1, f p.2) :: mapValues f ps := rfl

@[simp] theorem map_fst_mapValues (f : α → β) (ps : List (String × α)) :
    (mapValues f ps).map Prod.fst = ps.map Prod.fst := by
  simp [mapValues, Function.comp_def]

theorem defineProperty_mapValues (f : α → β) (props : List (String × α)) (m : String × α) :
    defineProperty (mapValues f props) (m.1, f m.2) = mapValues f (defineProperty props m) := by
  have hany : ((mapValues f props).any fun p => p.1 == m.1) = props.any (·.1 == m.1) := by
    induction props <;> simp_all [mapValues]
  unfold defineProperty
  rw [hany]
  split_ifs
  · simp only [mapValues, List.map_map]
    congr 1; funext p; simp only [Function.comp_apply]; split_ifs <;> rfl
  · simp [mapValues]

theorem createProperties_mapValues (f : α → β) (members : List (String × α)) :
    createProperties (mapValues f members) = mapValues f (createProperties members) := by
  unfold createProperties
  suffices h : ∀ acc, (mapValues f members).foldl defineProperty (mapValues f acc) =
      mapValues f (members.foldl defineProperty acc) from h []
  induction members with
  | nil => intro acc; rfl
  | cons m ms ih => intro acc; simp only [mapValues_cons, List.foldl_cons, defineProperty_mapValues, ih]

theorem filter_mapValues (f : α → β) (g : String → Bool) (ps : List (String × α)) :
    (mapValues f ps).filter (fun p => g p.1) = mapValues f (ps.filter fun p => g p.1) := by
  simp [mapValues, List.filter_map, Function.comp_def]

theorem insertionSort_mapValues (f : α → β) (ps : List (String × α)) :
    (mapValues f ps).insertionSort indexLe = mapValues f (ps.insertionSort indexLe) :=
  (List.map_insertionSort indexLe indexLe (fun p => (p.1, f p.2)) ps fun _ _ _ _ => Iff.rfl).symm

/-- The entries depend on the keys alone: decoding the values before or after
`Object.entries` gives the same list. -/
theorem objectEntries_mapValues (f : α → β) (members : List (String × α)) :
    objectEntries (mapValues f members) = mapValues f (objectEntries members) := by
  simp only [objectEntries, createProperties_mapValues, filter_mapValues (g := isArrayIndex),
    filter_mapValues (g := fun k => !isArrayIndex k), insertionSort_mapValues]
  simp [mapValues]

theorem foldl_defineProperty_of_nodup (members acc : List (String × α))
    (h : ((acc ++ members).map Prod.fst).Nodup) :
    members.foldl defineProperty acc = acc ++ members := by
  induction members generalizing acc with
  | nil => simp
  | cons m ms ih =>
    have hnd : (acc.map Prod.fst ++ m.1 :: ms.map Prod.fst).Nodup := by simpa using h
    have hm : (acc.any (·.1 == m.1)) = false := by
      simp only [List.any_eq_false, beq_iff_eq]
      intro p hp he
      exact List.disjoint_of_nodup_append hnd (List.mem_map_of_mem Prod.fst hp)
        (he ▸ List.mem_cons_self _ _)
    rw [List.foldl_cons, defineProperty, hm, if_neg (by simp), ih]
    · simp
    · simpa using h

/-- Members with pairwise distinct keys become properties in member order. -/
theorem createProperties_of_nodup {members : List (String × α)}
    (h : (members.map Prod.fst).Nodup) : createProperties members = members :=
  foldl_defineProperty_of_nodup members [] (by simpa using h)

/-- With pairwise distinct keys, the entries are the array-index members in ascending order,
then the other members in document order. -/
theorem objectEntries_of_nodup {members : List (String × α)}
    (h : (members.map Prod.fst).Nodup) :
    objectEntries members = (members.filter (isArrayIndex ·.1)).insertionSort indexLe ++
      members.filter (!isArrayIndex ·.1) := by
  simp only [objectEntries, createProperties_of_nodup h]

/-! ## Repeated keys -/

/-- The value of the last member with key `k`, the one `JSON.parse` keeps. -/
def lastValue (k : String) (members : List (String × α)) : Option α :=
  (members.reverse.find? (·.1 == k)).map Prod.snd

theorem lastValue_cons (k : String) (m : String × α) (ms : List (String × α)) :
    lastValue k (m :: ms) = (lastValue k ms).or (if m.1 = k then some m.2 else none) := by
  unfold lastValue
  rw [List.reverse_cons, List.find?_append]
  cases ms.reverse.find? (·.1 == k) <;> by_cases hm : m.1 = k <;> simp [hm]

theorem lastValue_eq_none {k : String} {ms : List (String × α)} :
    lastValue k ms = none ↔ k ∉ ms.map Prod.fst := by
  simp only [lastValue, Option.map_eq_none', List.find?_eq_none, List.mem_reverse, beq_iff_eq,
    List.mem_map, Prod.exists, exists_and_right, exists_eq_right, not_exists]
  exact ⟨fun h x hx => h _ hx rfl, fun h p hp hpk => h p.2 (hpk ▸ hp)⟩

/-- A defined property holds the member's value; the others are as they were. -/
theorem mem_defineProperty {props : List (String × α)} {m : String × α} {k : String} {v : α} :
    (k, v) ∈ defineProperty props m ↔ (k = m.1 ∧ v = m.2) ∨ (k ≠ m.1 ∧ (k, v) ∈ props) := by
  unfold defineProperty
  split_ifs with hany
  · -- the key is present: its property takes the new value in place
    obtain ⟨p, hp, hpk⟩ := List.any_eq_true.1 hany
    simp only [List.mem_map]
    constructor
    · rintro ⟨q, hq, hqe⟩
      split_ifs at hqe with hq1 <;> subst hqe
      exacts [.inl ⟨rfl, rfl⟩, .inr ⟨hq1, hq⟩]
    · rintro (⟨rfl, rfl⟩ | ⟨hk, hkv⟩)
      exacts [⟨p, hp, if_pos (beq_iff_eq.1 hpk)⟩, ⟨(k, v), hkv, if_neg hk⟩]
  · -- the key is new: the property is appended
    simp only [List.any_eq_true, beq_iff_eq, not_exists, not_and] at hany
    simp only [List.mem_append, List.mem_singleton, Prod.ext_iff]
    exact ⟨fun h => h.elim (fun hkv => .inr ⟨fun hk => hany _ hkv hk, hkv⟩) .inl,
      fun h => h.elim .inr fun h => .inl h.2⟩

/-- Defining a property keeps the keys pairwise distinct. -/
theorem nodup_keys_defineProperty {props : List (String × α)} (h : (props.map Prod.fst).Nodup)
    (m : String × α) : ((defineProperty props m).map Prod.fst).Nodup := by
  unfold defineProperty
  split_ifs with hany
  · rwa [List.map_map, show (Prod.fst ∘ fun p => if p.1 = m.1 then m else p) = Prod.fst from
      funext fun p => by by_cases hp : p.1 = m.1 <;> simp [hp]]
  · simp only [List.any_eq_true, beq_iff_eq, not_exists, not_and] at hany
    rw [List.map_append, List.nodup_append]
    exact ⟨h, List.nodup_singleton _, by simpa using fun x hx => hany (m.1, x) hx rfl⟩

/-- Defining the members in order from `acc` keeps the keys distinct; a member's key holds the
value of its last member, and the other keys what `acc` held. -/
theorem foldl_defineProperty_spec (ms acc : List (String × α))
    (h : (acc.map Prod.fst).Nodup) :
    ((ms.foldl defineProperty acc).map Prod.fst).Nodup ∧
    ∀ k v, (k, v) ∈ ms.foldl defineProperty acc ↔
      lastValue k ms = some v ∨ (k ∉ ms.map Prod.fst ∧ (k, v) ∈ acc) := by
  induction ms generalizing acc with
  | nil => simpa [lastValue] using h
  | cons m ms ih =>
    obtain ⟨hnodup, hmem⟩ := ih (defineProperty acc m) (nodup_keys_defineProperty h m)
    refine ⟨hnodup, fun k v => ?_⟩
    rw [List.foldl_cons, hmem, mem_defineProperty, lastValue_cons]
    rcases hlast : lastValue k ms with _ | w
    · have hk := lastValue_eq_none.1 hlast
      by_cases hkm : m.1 = k
      · subst hkm; simp [hk, eq_comm]
      · simp [hk, hkm, Ne.symm hkm]
    · have hk : k ∈ ms.map Prod.fst := by
        by_contra hk
        simp [lastValue_eq_none.2 hk] at hlast
      simp [hk]

/-- The properties `JSON.parse` creates have distinct keys, each holding the value of the last
member with that key. -/
theorem createProperties_spec (members : List (String × α)) :
    ((createProperties members).map Prod.fst).Nodup ∧
    ∀ k v, (k, v) ∈ createProperties members ↔ lastValue k members = some v := by
  simpa using foldl_defineProperty_spec members [] List.nodup_nil

/-- `Object.entries` lists the properties in another order. -/
theorem objectEntries_perm (members : List (String × α)) :
    (objectEntries members).Perm (createProperties members) :=
  ((List.perm_insertionSort _ _).append_right _).trans (List.filter_append_perm _ _)

end TraceAdapter
