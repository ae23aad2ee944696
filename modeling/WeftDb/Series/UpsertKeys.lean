import WeftDb.Series.KeyReading

/-!
# The order of canonical keys

Both separators sort below every byte of a key or a value.  So where one key or value ends first,
the separator behind it decides as the end of a list would.
-/

namespace WeftDb.Tags

/-- The order of tags: by key, then by value. -/
def comparePair (left right : Pair) : Ordering :=
  (compare left.1 right.1).then (compare left.2 right.2)

theorem compare_append {left right : Bytes} {behind after : Bytes}
    (above_behind : ∀ low ∈ behind.head?, ∀ byte ∈ right, low < byte)
    (above_after : ∀ low ∈ after.head?, ∀ byte ∈ left, low < byte) :
    compare (left ++ behind) (right ++ after) =
      (compare left right).then (compare behind after) := by
  induction left generalizing right with
  | nil =>
      cases right with
      | nil => rfl
      | cons byte right =>
          cases behind with
          | nil => rfl
          | cons low behind =>
              have below : compare low byte = .lt :=
                Std.compare_eq_lt.mpr (above_behind low rfl byte List.mem_cons_self)
              rw [List.nil_append, List.cons_append, List.compare_cons_cons, below,
                List.compare_nil_cons]
              rfl
  | cons byte left ih =>
      have outer : ∀ low ∈ after.head?, ∀ byte ∈ left, low < byte := fun low head byte member =>
        above_after low head byte (List.mem_cons_of_mem _ member)
      cases right with
      | nil =>
          cases after with
          | nil => rfl
          | cons low after =>
              have above : compare byte low = .gt :=
                Std.compare_eq_gt.mpr (above_after low rfl byte List.mem_cons_self)
              rw [List.nil_append, List.cons_append, List.compare_cons_cons, above,
                List.compare_cons_nil]
              rfl
      | cons other right =>
          have inner : ∀ low ∈ behind.head?, ∀ byte ∈ right, low < byte :=
            fun low head byte member =>
              above_behind low head byte (List.mem_cons_of_mem _ member)
          rw [List.cons_append, List.cons_append, List.compare_cons_cons, List.compare_cons_cons,
            ih inner outer, Ordering.then_assoc]

variable {key : Bytes} {left right pairs : List Pair}

theorem separator_lt_key (isKey : IsKey key) :
    ∀ byte ∈ key, tagKeyValueSeparator < byte := fun byte member => by
  have above := (of_isKeyByte (isKey.bytes byte member)).1
  rw [UInt8.lt_iff_toNat_lt]
  exact Nat.lt_of_lt_of_le (by decide) above

theorem separator_lt_value {value : Bytes} (isValue : IsValue value) :
    ∀ byte ∈ value, tagPairSeparator < byte := fun byte member => by
  have clean := isValue.2.2.1 byte member
  simp only [isAsciiControl, decide_eq_false_iff_not, not_or, UInt8.not_lt] at clean
  exact UInt8.lt_of_lt_of_le (by decide) clean.1

/-- The tags behind the first one, each behind a separator. -/
def laterText (pairs : List Pair) : Bytes :=
  pairs.flatMap fun pair => tagPairSeparator :: pairText pair

theorem head?_laterText (pairs : List Pair) :
    ∀ low ∈ (laterText pairs).head?, low = tagPairSeparator := by
  cases pairs with
  | nil => simp [laterText]
  | cons pair pairs => simp [laterText, eq_comm]

theorem compare_pairText {left right : Pair} (inside_left : IsPair left)
    (inside_right : IsPair right) (behind after : List Pair) :
    compare (pairText left ++ laterText behind) (pairText right ++ laterText after) =
      (comparePair left right).then (compare (laterText behind) (laterText after)) := by
  have values : compare (left.2 ++ laterText behind) (right.2 ++ laterText after) =
      (compare left.2 right.2).then (compare (laterText behind) (laterText after)) := by
    apply compare_append
    · intro low head byte member
      rw [head?_laterText behind low head]
      exact separator_lt_value inside_right.2 byte member
    · intro low head byte member
      rw [head?_laterText after low head]
      exact separator_lt_value inside_left.2 byte member
  have alike : compare tagKeyValueSeparator tagKeyValueSeparator = .eq := by decide
  rw [pairText, pairText, List.append_assoc, List.append_assoc, List.cons_append, List.cons_append,
    compare_append, List.compare_cons_cons, alike, values, comparePair, Ordering.then_assoc]
  · rfl
  · rintro low ⟨rfl⟩
    exact separator_lt_key inside_right.1
  · rintro low ⟨rfl⟩
    exact separator_lt_key inside_left.1

theorem compare_laterText (inside_left : ∀ pair ∈ left, IsPair pair)
    (inside_right : ∀ pair ∈ right, IsPair pair) :
    compare (laterText left) (laterText right) = List.compareLex comparePair left right := by
  induction left generalizing right with
  | nil => cases right <;> rfl
  | cons first left ih =>
      cases right with
      | nil => rfl
      | cons other right =>
          obtain ⟨own_left, inside_left⟩ := List.forall_mem_cons.mp inside_left
          obtain ⟨own_right, inside_right⟩ := List.forall_mem_cons.mp inside_right
          have alike : compare tagPairSeparator tagPairSeparator = .eq := by decide
          rw [laterText, laterText, List.flatMap_cons, List.flatMap_cons, List.cons_append,
            List.cons_append, List.compare_cons_cons, alike]
          change compare (pairText first ++ laterText left) (pairText other ++ laterText right) = _
          rw [compare_pairText own_left own_right, ih inside_left inside_right,
            List.compareLex_cons_cons]

theorem compare_canonicalForm (inside_left : ∀ pair ∈ left, IsPair pair)
    (inside_right : ∀ pair ∈ right, IsPair pair) :
    compare (canonicalForm left) (canonicalForm right) = List.compareLex comparePair left right := by
  cases left with
  | nil =>
      cases right with
      | nil => rfl
      | cons other right =>
          rw [canonicalForm_cons]
          cases text : pairText other with
          | nil => exact absurd text (pairText_ne_nil other)
          | cons byte text => rfl
  | cons first left =>
      obtain ⟨own_left, inside_left⟩ := List.forall_mem_cons.mp inside_left
      cases right with
      | nil =>
          rw [canonicalForm_cons]
          cases text : pairText first with
          | nil => exact absurd text (pairText_ne_nil first)
          | cons byte text => rfl
      | cons other right =>
          obtain ⟨own_right, inside_right⟩ := List.forall_mem_cons.mp inside_right
          rw [canonicalForm_cons, canonicalForm_cons]
          change compare (pairText first ++ laterText left) (pairText other ++ laterText right) = _
          rw [compare_pairText own_left own_right, compare_laterText inside_left inside_right,
            List.compareLex_cons_cons]

theorem iter_of_fromPairs (accepted : fromPairs pairs = .ok key) :
    ∃ held, held.Perm pairs ∧ Canonical held ∧ key = canonicalForm held ∧ iter key = held := by
  obtain ⟨held, perm, canonical, -, rfl⟩ := fromPairs_eq_ok.mp accepted
  exact ⟨held, perm, canonical, rfl, iter_canonicalForm canonical.inside⟩

theorem fromPairs_perm {permuted : List Pair} (perm : pairs.Perm permuted)
    (accepted : fromPairs pairs = .ok key) : fromPairs permuted = .ok key := by
  obtain ⟨held, same, accepted⟩ := fromPairs_eq_ok.mp accepted
  exact fromPairs_eq_ok.mpr ⟨held, same.trans perm, accepted⟩

theorem perm_of_fromPairs {others : List Pair} (first : fromPairs pairs = .ok key)
    (second : fromPairs others = .ok key) : pairs.Perm others := by
  obtain ⟨_, same, -, -, rfl⟩ := iter_of_fromPairs first
  obtain ⟨_, other, -, -, rfl⟩ := iter_of_fromPairs second
  exact same.symm.trans other

/-- The canonical key of a tag set is a canonical form. -/
theorem canonical_key_canonical :
    (∀ pairs permuted key, pairs.Perm permuted → fromPairs pairs = .ok key →
      fromPairs permuted = .ok key) ∧
    (∀ pairs others key, fromPairs pairs = .ok key → fromPairs others = .ok key →
      pairs.Perm others) ∧
    (∀ pairs key, fromPairs pairs = .ok key →
      fromCanonical key = .ok key ∧ iter key = pairs.insertionSort KeyLE ∧
        (∀ name value, get key name = some value ↔ (name, value) ∈ pairs) ∧
        len key = pairs.length) ∧
    (∀ bytes, (∃ key, fromCanonical bytes = .ok key) ↔
      ∃ pairs, Canonical pairs ∧ bytes = canonicalForm pairs) ∧
    (∀ bytes key, fromCanonical bytes = .ok key →
      key = bytes ∧ canonicalForm (iter key) = bytes) ∧
    ∀ left right, fromCanonical left = .ok left → fromCanonical right = .ok right →
      compare left right = List.compareLex comparePair (iter left) (iter right) := by
  refine ⟨fun pairs permuted key perm => fromPairs_perm perm,
    fun pairs others key => perm_of_fromPairs, ?_, ?_, ?_, ?_⟩
  · intro pairs key accepted
    obtain ⟨held, perm, canonical, rfl, tags⟩ := iter_of_fromPairs accepted
    have sorted_eq : pairs.insertionSort KeyLE = held :=
      eq_of_sorted ((List.perm_insertionSort KeyLE pairs).trans perm.symm)
        (List.pairwise_insertionSort KeyLE pairs) canonical.sorted
    refine ⟨fromCanonical_eq_ok.mpr ⟨rfl, held, canonical, rfl⟩, tags.trans sorted_eq.symm, ?_, ?_⟩
    · intro name value
      rw [get, tags, find_eq_some canonical.sorted, perm.mem_iff]
    · rw [len_canonicalForm canonical.inside, perm.length_eq]
  · intro bytes
    simp only [fromCanonical_eq_ok, exists_eq_left]
  · intro bytes key accepted
    obtain ⟨rfl, pairs, canonical, rfl⟩ := fromCanonical_eq_ok.mp accepted
    exact ⟨rfl, by rw [iter_canonicalForm canonical.inside]⟩
  · intro left right accepted_left accepted_right
    obtain ⟨-, pairs, canonical, rfl⟩ := fromCanonical_eq_ok.mp accepted_left
    obtain ⟨-, others, canonical', rfl⟩ := fromCanonical_eq_ok.mp accepted_right
    rw [compare_canonicalForm canonical.inside canonical'.inside,
      iter_canonicalForm canonical.inside, iter_canonicalForm canonical'.inside]

theorem canonical_key_of_two_tags :
    fromPairs [([0x62], [0x32]), ([0x61], [0x31])] =
        .ok [0x61, 0x1F, 0x31, 0x1E, 0x62, 0x1F, 0x32] ∧
      len [0x61, 0x1F, 0x31, 0x1E, 0x62, 0x1F, 0x32] = 2 := by
  have accepted : fromPairs [([0x62], [0x32]), ([0x61], [0x31])] =
      .ok [0x61, 0x1F, 0x31, 0x1E, 0x62, 0x1F, 0x32] := by decide
  exact ⟨accepted, (canonical_key_canonical.2.2.1 _ _ accepted).2.2.2⟩

/-!
## Declared upsert keys

The upsert key of an aspect is the timestamp and a set of tag keys.  Its wire form lists the word
for the timestamp before the tag keys, and reading one needs that word exactly once: a tag key
spelled like it is accepted by the declaration and not read back.
-/

/-- The word `timestamp`. -/
def timestampUpsertKey : Bytes := [0x74, 0x69, 0x6D, 0x65, 0x73, 0x74, 0x61, 0x6D, 0x70]

def TextLE (left right : Bytes) : Prop := (compare left right).isLE = true

instance : DecidableRel TextLE := fun left right =>
  inferInstanceAs (Decidable ((compare left right).isLE = true))

instance : Std.Total TextLE where
  total left right := by
    unfold TextLE
    rw [compare_swap left right]
    cases compare left right <;> decide

instance : IsTrans Bytes TextLE where
  trans _ _ _ := Std.TransCmp.isLE_trans

/-- A set of tag keys, in ascending order. -/
structure UpsertKeys where
  tags : List Bytes
  sorted : tags.Pairwise TextLE
  distinct : tags.Nodup

/-- Why a wire form is refused. -/
inductive WireError where
  | missingTimestamp
  | repeatedTimestamp
  | upsertKey (error : TagError)
  deriving DecidableEq

def WireError.text (display : TagError → String) : WireError → String
  | missingTimestamp => "upsert keys must include \"timestamp\", which every upsert key starts from"
  | repeatedTimestamp => "upsert keys name \"timestamp\" more than once"
  | upsertKey error => "upsert key: " ++ display error

namespace UpsertKeys

/-- The set of some keys. -/
def collect (keys : List Bytes) : UpsertKeys where
  tags := (keys.insertionSort TextLE).dedup
  sorted := (List.pairwise_insertionSort TextLE keys).sublist (List.dedup_sublist _)
  distinct := List.nodup_dedup _

/-- The keys of a declaration, checked like the keys of a tag set. -/
def new (tags : List Bytes) : Except TagError UpsertKeys := do
  let _ ← fromPairs (tags.map fun key => (key, [0x6B]))
  return collect tags

def toWire (keys : UpsertKeys) : List Bytes := timestampUpsertKey :: keys.tags

/-- The word for the timestamp once, anywhere, and tag keys. -/
def fromWire (keys : List Bytes) : Except WireError UpsertKeys :=
  match keys.count timestampUpsertKey with
  | 0 => .error .missingTimestamp
  | 1 => (new (keys.filter (· ≠ timestampUpsertKey))).mapError .upsertKey
  | _ => .error .repeatedTimestamp

/-- The text form of a list of texts; reading may fail. -/
structure ListCodec where
  write : List Bytes → Bytes
  read : Bytes → Option (List Bytes)

variable (codec : ListCodec)
variable {given : List Bytes} {keys : UpsertKeys}

def toCatalog (keys : UpsertKeys) : Bytes := codec.write keys.toWire

/-- Why the text of a catalog is refused. -/
inductive CatalogError where
  | noList
  | wire (error : WireError)
  deriving DecidableEq

def fromCatalog (text : Bytes) : Except CatalogError UpsertKeys :=
  match codec.read text with
  | none => .error .noList
  | some keys => (fromWire keys).mapError .wire

theorem collect_tags (keys : UpsertKeys) : collect keys.tags = keys := by
  obtain ⟨tags, sorted, distinct⟩ := keys
  simp only [collect, sorted.insertionSort_eq, distinct.dedup]

theorem new_tags (accepted : new given = .ok keys) : new keys.tags = .ok keys := by
  simp only [new, bind_eq_ok, pure_eq_ok] at accepted
  obtain ⟨key, checked, rfl⟩ := accepted
  obtain ⟨held, perm, canonical, -, -⟩ := fromPairs_eq_ok.mp checked
  have apart : (held.map Prod.fst).Nodup := by
    refine List.pairwise_map.mpr (canonical.sorted.imp fun {left right} below same => ?_)
    have alike : compare left.1 left.1 = .eq := Std.ReflCmp.compare_self
    rw [← same, alike] at below
    cases below
  have distinct : given.Nodup := by
    have names : (given.map fun key => ((key, [0x6B]) : Pair)).map Prod.fst = given := by
      rw [List.map_map]
      exact List.map_id _
    rw [← names]
    exact (perm.map Prod.fst).nodup_iff.mp apart
  have sorted := List.perm_insertionSort TextLE given
  have same : (collect given).tags.Perm given := by
    simp only [collect, (sorted.nodup_iff.mpr distinct).dedup]
    exact sorted
  have again := fromPairs_perm (same.symm.map fun key => ((key, [0x6B]) : Pair)) checked
  simp only [new, bind_eq_ok, pure_eq_ok, again]
  exact ⟨key, rfl, collect_tags _⟩

theorem fromWire_toWire_iff (accepted : new given = .ok keys) :
    fromWire keys.toWire = .ok keys ↔ timestampUpsertKey ∉ keys.tags := by
  have count : keys.toWire.count timestampUpsertKey =
      keys.tags.count timestampUpsertKey + 1 := List.count_cons_self
  constructor
  · intro read member
    have twice : 0 < keys.tags.count timestampUpsertKey := List.count_pos_iff.mpr member
    obtain ⟨more, shape⟩ := Nat.exists_eq_succ_of_ne_zero twice.ne'
    rw [fromWire, count, shape] at read
    cases read
  · intro absent
    have others : keys.toWire.filter (· ≠ timestampUpsertKey) = keys.tags := by
      rw [toWire, List.filter_cons_of_neg (by simp)]
      exact List.filter_eq_self.mpr fun key member =>
        decide_eq_true fun same => absent (same ▸ member)
    rw [fromWire, count, List.count_eq_zero.mpr absent]
    simp only [others, new_tags accepted]
    rfl

/-- A declaration is read back from its wire form and from the catalog exactly when no tag key is
spelled like the timestamp. -/
theorem declaration_survives_iff {given : List Bytes} {keys : UpsertKeys}
    (accepted : new given = .ok keys)
    (round_trip : codec.read (codec.write keys.toWire) = some keys.toWire) :
    (fromWire keys.toWire = .ok keys ∧ fromCatalog codec (keys.toCatalog codec) = .ok keys) ↔
      timestampUpsertKey ∉ keys.tags := by
  rw [← fromWire_toWire_iff accepted, fromCatalog, toCatalog, round_trip]
  simp only [mapError_eq_ok, and_self]

theorem new_eq_ok (checked : fromPairs (given.map fun key => (key, [0x6B])) = .ok key) :
    new given = .ok (collect given) := by
  rw [new, checked]
  rfl

theorem declaration_of_one_tag :
    fromWire (collect [[0x64, 0x63]]).toWire = .ok (collect [[0x64, 0x63]]) ∧
      fromCatalog
          ⟨fun keys => [0x5B] ++ [0x2C].intercalate (keys.map fun key => [0x22] ++ key ++ [0x22]) ++
              [0x5D],
            fun text => some ((text.tail.dropLast.splitOn 0x2C).map fun key => key.tail.dropLast)⟩
          [0x5B, 0x22, 0x74, 0x69, 0x6D, 0x65, 0x73, 0x74, 0x61, 0x6D, 0x70, 0x22, 0x2C, 0x22, 0x64,
            0x63, 0x22, 0x5D] =
        .ok (collect [[0x64, 0x63]]) := by
  have checked : fromPairs ([[0x64, 0x63]].map fun key => (key, [0x6B])) =
      .ok [0x64, 0x63, 0x1F, 0x6B] := by decide
  exact (declaration_survives_iff _ (new_eq_ok checked) (by decide)).mpr (by decide)

/-- A tag key spelled like the timestamp is accepted and not read back. -/
theorem timestamp_tag_does_not_survive :
    ¬∀ given keys, new given = .ok keys → fromWire keys.toWire = .ok keys := by
  intro survives
  have checked : fromPairs [(timestampUpsertKey, [0x6B])] =
      .ok (timestampUpsertKey ++ [0x1F, 0x6B]) := by decide
  have accepted : new [timestampUpsertKey] = .ok (collect [timestampUpsertKey]) :=
    new_eq_ok checked
  have refused : fromWire (collect [timestampUpsertKey]).toWire = .error .repeatedTimestamp := rfl
  rw [survives _ _ accepted] at refused
  cases refused

end UpsertKeys

end WeftDb.Tags
