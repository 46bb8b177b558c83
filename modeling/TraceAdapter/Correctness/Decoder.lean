import TraceAdapter.Native.Value

/-!
# Shape and field order of decoded values

`traceValueFromJSON` keeps the shape of a value: scalars become strings and
arrays keep their elements in order. A compound keeps each of its fields once,
paired with its decoded value, but in `Object.entries` order: the fields whose
names are array indices come first, in ascending numeric order, and only the
others keep their document order.
-/

namespace TraceAdapter

theorem mapValues_append {α β : Type} (f : α → β) (xs ys : List (String × α)) :
    mapValues f (xs ++ ys) = mapValues f xs ++ mapValues f ys :=
  List.map_append _ _ _

/-- A compound with distinct field names decodes to its array-index fields in ascending
numeric order, then its other fields in document order. -/
theorem traceValueFromJSON_compound_of_nodup (fields : List (String × JSONTraceValueType))
    (type : String) (variant_name : Option String) (variant_tag : Option Int)
    (h : (fields.map Prod.fst).Nodup) :
    traceValueFromJSON (.compound fields type variant_name variant_tag) =
      .compound (((mapValues traceValueFromJSON fields).filter (isArrayIndex ·.1)).insertionSort
          indexLe ++ (mapValues traceValueFromJSON fields).filter (!isArrayIndex ·.1))
        type variant_name variant_tag := by
  rw [traceValueFromJSON_compound, objectEntries_of_nodup h, mapValues_append,
    ← insertionSort_mapValues, ← filter_mapValues, ← filter_mapValues (g := fun k => !isArrayIndex k)]

/-- Decoding keeps the shape of every value: a scalar becomes a single string, the text
`String` gives it (for a number, `Number::toString` of the double `JSON.parse` read), an array
the decoded elements in order, and a compound with distinct field names a compound with the same
type and variant whose fields are exactly the decoded fields, each once: those whose names are
array indices first, in ascending numeric order, then the others in document order. When no
field name is an array index, the fields keep their document order. -/
theorem traceValueFromJSON_shape :
    (∀ b, traceValueFromJSON (.boolean b) = .string (toString b)) ∧
    (∀ x, traceValueFromJSON (.number x) = .string (numberToString x)) ∧
    (∀ s, traceValueFromJSON (.string s) = .string s) ∧
    (∀ items, traceValueFromJSON (.array items) = .array (items.map traceValueFromJSON)) ∧
    (∀ fields type variant_name variant_tag, (fields.map Prod.fst).Nodup →
      ∃ indexed, traceValueFromJSON (.compound fields type variant_name variant_tag) =
          .compound (indexed ++ (mapValues traceValueFromJSON fields).filter (!isArrayIndex ·.1))
            type variant_name variant_tag ∧
        indexed.Perm ((mapValues traceValueFromJSON fields).filter (isArrayIndex ·.1)) ∧
        indexed.Sorted indexLe) ∧
    ∀ fields type variant_name variant_tag, (fields.map Prod.fst).Nodup →
      (∀ p ∈ fields, isArrayIndex p.1 = false) →
      traceValueFromJSON (.compound fields type variant_name variant_tag) =
        .compound (mapValues traceValueFromJSON fields) type variant_name variant_tag := by
  refine ⟨fun _ => rfl, fun _ => rfl, fun _ => rfl, fun items => by simp [traceValueFromJSON],
    fun fields type variant_name variant_tag h =>
      ⟨_, traceValueFromJSON_compound_of_nodup fields type variant_name variant_tag h,
        List.perm_insertionSort _ _, List.sorted_insertionSort _ _⟩,
    fun fields type variant_name variant_tag h hnone => ?_⟩
  rw [traceValueFromJSON_compound_of_nodup fields type variant_name variant_tag h]
  have hall : ∀ p ∈ mapValues traceValueFromJSON fields, isArrayIndex p.1 = false := by
    intro p hp
    obtain ⟨q, hq, rfl⟩ := List.mem_map.mp hp
    exact hnone q hq
  rw [List.filter_eq_nil_iff.mpr (by simpa using hall), List.filter_eq_self.mpr (by simpa using hall)]
  rfl

theorem mem_mapValues {α β : Type} {f : α → β} {ps : List (String × α)} {k : String} {v : β} :
    (k, v) ∈ mapValues f ps ↔ ∃ w, (k, w) ∈ ps ∧ v = f w := by
  simp only [mapValues, List.mem_map, Prod.ext_iff]
  constructor
  · rintro ⟨p, hp, rfl, rfl⟩; exact ⟨p.2, hp, rfl⟩
  · rintro ⟨w, hw, rfl⟩; exact ⟨(k, w), hw, rfl, rfl⟩

/-- For every compound, with repeated field names or not, the decoded compound keeps its type
and variant and lists each field name of the JSON object exactly once, holding the decoded value
of the last member with that name, the value `JSON.parse` keeps. -/
theorem traceValueFromJSON_compound_fields (fields : List (String × JSONTraceValueType))
    (type : String) (variant_name : Option String) (variant_tag : Option Int) :
    ∃ decoded, traceValueFromJSON (.compound fields type variant_name variant_tag) =
        .compound decoded type variant_name variant_tag ∧
      (decoded.map Prod.fst).Nodup ∧
      ∀ k v, (k, v) ∈ decoded ↔ ∃ w, lastValue k fields = some w ∧ v = traceValueFromJSON w := by
  obtain ⟨hnodup, hmem⟩ := createProperties_spec fields
  have hperm := objectEntries_perm fields
  refine ⟨_, traceValueFromJSON_compound fields type variant_name variant_tag, ?_, fun k v => ?_⟩
  · rw [map_fst_mapValues]
    exact ((hperm.map Prod.fst).nodup_iff).2 hnodup
  · simp only [mem_mapValues, hperm.mem_iff, hmem]

example : traceValueFromJSON (.compound [("a", .number (.ofNat 1)), ("b", .number (.ofNat 2)),
    ("a", .number (.ofNat 3))] "T" none none) =
      .compound [("a", .string "3"), ("b", .string "2")] "T" none none := rfl

/-- A field named by an array index is listed before the fields declared ahead of it. -/
theorem traceValueFromJSON_index_field_first :
    traceValueFromJSON (.compound [("b", .number (.ofNat 1)), ("1", .number (.ofNat 2))] "T"
        none none) =
      .compound [("1", .string "2"), ("b", .string "1")] "T" none none ∧
    traceValueFromJSON (.compound [("b", .number (.ofNat 1)), ("1", .number (.ofNat 2))] "T"
        none none) ≠
      .compound [("b", .string "1"), ("1", .string "2")] "T" none none := by
  have h : traceValueFromJSON (.compound [("b", .number (.ofNat 1)), ("1", .number (.ofNat 2))]
      "T" none none) = .compound [("1", .string "2"), ("b", .string "1")] "T" none none := rfl
  exact ⟨h, by rw [h]; simp⟩

end TraceAdapter
