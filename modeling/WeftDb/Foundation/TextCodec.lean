import WeftDb.Foundation.Results
import WeftDb.Foundation.SortedMap

/-!
# Values kept as text

A text codec carries its round trip, so different values have different texts.  What a table gives
back of a map is its rows inserted one after the other: of a list, each item under its index, the
list itself.
-/

namespace WeftDb

/-- A way to write the values of a type as text which reads back as the value. -/
structure TextCodec (α : Type) where
  render : α → String
  parse : String → Option α
  /-- What was rendered is read back. -/
  parse_render : ∀ value, parse (render value) = some value

namespace TextCodec

variable {α : Type} (codec : TextCodec α)

/-- Text as it is. -/
def text : TextCodec String where
  render := id
  parse := some
  parse_render _ := rfl

theorem render_inj {left right : α} : codec.render left = codec.render right ↔ left = right := by
  refine ⟨fun same => ?_, congrArg codec.render⟩
  have parsed := codec.parse_render left
  rw [same, codec.parse_render] at parsed
  exact (Option.some.inj parsed).symm

end TextCodec

section Replaced

variable {Row Key : Type} [DecidableEq Key] {key : Row → Key} {own : Key} {added : List Row}

variable (rows : List Row) (all_own : ∀ row ∈ added, key row = own)

include rows all_own

theorem filter_replaced_own :
    (rows.filter (key · ≠ own) ++ added).filter (key · = own) = added := by
  rw [List.filter_append, List.filter_filter, List.filter_eq_nil_iff.mpr fun row _ => by simp,
    List.filter_eq_self.mpr fun row member => by simp [all_own row member]]
  rfl

theorem filter_replaced_of_ne {other : Key} (different : own ≠ other) :
    (rows.filter (key · ≠ own) ++ added).filter (key · = other) = rows.filter (key · = other) := by
  have none_added : added.filter (key · = other) = [] :=
    List.filter_eq_nil_iff.mpr fun row member => by simp [all_own row member, different]
  rw [List.filter_append, none_added, List.append_nil, List.filter_filter]
  refine List.filter_congr fun row _ => ?_
  by_cases same : key row = other
  · simp [same, different.symm]
  · simp [same]

theorem filter_appended (fresh : ∀ row ∈ rows, key row ≠ own) :
    (rows ++ added).filter (key · = own) = added := by
  rw [List.filter_append, List.filter_eq_nil_iff.mpr fun row member => by simp [fresh row member],
    List.filter_eq_self.mpr fun row member => by simp [all_own row member]]
  rfl

end Replaced

section Rows

variable {ε Row State Item Value : Type}

theorem foldlM_read {step : State → Row → Except ε State} {row : Item → Row}
    {put : State → Item → State} (items : List Item)
    (reads : ∀ state, ∀ item ∈ items, step state (row item) = .ok (put state item))
    (state : State) : (items.map row).foldlM step state = .ok (items.foldl put state) := by
  induction items generalizing state with
  | nil => rfl
  | cons item items ih =>
      rw [List.map_cons, List.foldlM_cons, reads state item List.mem_cons_self]
      exact ih (fun state item member => reads state item (List.mem_cons_of_mem _ member)) _

/-- Put a value under a key. -/
def putEntry [DecidableEq Item] (found : Item → Option Value) (entry : Item × Value) :
    Item → Option Value :=
  Function.update found entry.1 (some entry.2)

theorem foldl_putEntry [DecidableEq Item] (map : Item → Option Value) (items : List Item)
    (found : Item → Option Value) (item : Item) :
    ((items.filterMap fun item => (map item).map (item, ·)).foldl putEntry found) item =
      if item ∈ items ∧ (map item).isSome then map item else found item := by
  induction items generalizing found with
  | nil => simp
  | cons head items ih =>
      rcases value : map head with _ | value'
      · rw [List.filterMap_cons_none (by rw [value]; rfl), ih]
        by_cases same : item = head
        · simp [same, value]
        · simp [same]
      · rw [List.filterMap_cons_some (by rw [value]; rfl), List.foldl_cons, ih]
        by_cases same : item = head
        · simp [putEntry, same, value]
        · simp [putEntry, same]

theorem SortedMap.insertEntry_concat {Key : Type*} [LinearOrder Key] {key : Key} {value : Value}
    {entries : List (Key × Value)} (greatest : ∀ entry ∈ entries, entry.1 < key) :
    SortedMap.insertEntry key value entries = entries ++ [(key, value)] := by
  induction entries with
  | nil => rfl
  | cons head entries ih =>
      obtain ⟨below, later⟩ := List.forall_mem_cons.mp greatest
      rw [SortedMap.insertEntry, if_neg below.not_gt, if_neg below.ne, ih later]
      rfl

theorem SortedMap.foldl_insert_zipIdx (items : List Value) (map : SortedMap Nat Value) (from_ : Nat)
    (below : ∀ entry ∈ map.entries, entry.1 < from_) :
    ((items.zipIdx from_).foldl (fun map entry => map.insert entry.2 entry.1) map).entries =
      map.entries ++ (items.zipIdx from_).map Prod.swap := by
  induction items generalizing map from_ with
  | nil => simp
  | cons item items ih =>
      have added : (map.insert from_ item).entries = map.entries ++ [(from_, item)] :=
        SortedMap.insertEntry_concat below
      rw [List.zipIdx_cons, List.foldl_cons, ih, added]
      · simp
      · intro entry member
        rw [added, List.mem_append, List.mem_singleton] at member
        rcases member with member | rfl
        · exact Nat.lt_succ_of_lt (below entry member)
        · exact Nat.lt_succ_self _

theorem SortedMap.filterMap_keys {Key : Type*} [LinearOrder Key] (map : SortedMap Key Value) :
    map.keys.filterMap map.find? = map.entries.map Prod.snd := by
  rw [SortedMap.keys, List.filterMap_map, ← List.filterMap_eq_map]
  refine List.filterMap_congr fun entry member => ?_
  exact SortedMap.find?_eq_some.mpr member

end Rows

end WeftDb
