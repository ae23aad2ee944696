import WeftDb.Series.CanonicalKey

/-!
# The canonical form of a set of tags

Keys and values hold neither separator, and both separators sort below every byte they do hold.  So
a canonical key is taken apart again in one way, and canonical keys order as their lists of tags.
-/

namespace WeftDb.Tags

/-- What a key may be. -/
def IsKey (key : Bytes) : Prop :=
  ∃ first later, key = first :: later ∧ key.length ≤ maxTagKeyBytes ∧ isKeyStart first = true ∧
    ∀ byte ∈ later, isKeyByte byte = true

/-- What a value may be. -/
def IsValue (value : Bytes) : Prop :=
  value ≠ [] ∧ value.length ≤ maxTagValueBytes ∧ (∀ byte ∈ value, isAsciiControl byte = false) ∧
    IsText value

theorem ascii_of_isKeyStart {byte : UInt8} (start : isKeyStart byte = true) :
    isKeyByte byte = true := by
  simp only [isKeyStart, isKeyByte, Bool.or_eq_true] at start ⊢
  tauto

theorem of_isKeyByte {byte : UInt8} (inner : isKeyByte byte = true) :
    0x2D ≤ byte.toNat ∧ byte.toNat < 0x80 := by
  simp only [isKeyByte, isAsciiAlphabetic, isAsciiDigit, Bool.or_eq_true, decide_eq_true_eq,
    beq_iff_eq, UInt8.le_iff_toNat_le, ← UInt8.toNat_inj] at inner
  simp only [UInt8.reduceToNat] at inner
  omega

variable {key value canonical : Bytes} {separator : UInt8} {pairs held : List Pair} {Value : Type}
  {left right : Bytes × Value}

theorem IsKey.bytes (isKey : IsKey key) : ∀ byte ∈ key, isKeyByte byte = true := by
  obtain ⟨first, later, rfl, -, start, inner⟩ := isKey
  exact List.forall_mem_cons.mpr ⟨ascii_of_isKeyStart start, inner⟩

theorem isText_of_ascii {bytes : Bytes} (ascii : ∀ byte ∈ bytes, byte.toNat < 0x80) :
    IsText bytes := by
  induction bytes with
  | nil => exact ByteArray.isValidUTF8_empty
  | cons byte bytes ih =>
      obtain ⟨first, later⟩ := List.forall_mem_cons.mp ascii
      have value : (Char.ofNat byte.toNat).toNat = byte.toNat := by
        rw [Char.toNat, Char.ofNat, dif_pos (.inl (by omega))]
        rfl
      have size : (Char.ofNat byte.toNat).utf8Size = 1 := by
        rw [Char.utf8Size, if_pos]
        rw [UInt32.le_iff_toNat_le]
        exact Nat.le_of_lt_succ (value.trans_lt first)
      have one : ByteArray.IsValidUTF8 ⟨#[byte]⟩ := by
        have encoded := @Char.isValidUTF8_toByteArray_utf8EncodeChar (Char.ofNat byte.toNat)
        have same : (Char.ofNat byte.toNat).val.toUInt8 = byte := by
          rw [← UInt8.toNat_inj, UInt32.toNat_toUInt8]
          exact (congrArg (· % 2 ^ 8) value).trans (Nat.mod_eq_of_lt byte.toNat_lt)
        rwa [String.utf8EncodeChar_eq_singleton size, same] at encoded
      have whole := one.append (ih later)
      rwa [← show (⟨(byte :: bytes).toArray⟩ : ByteArray) = ⟨#[byte]⟩ ++ ⟨bytes.toArray⟩ from by
        rw [ByteArray.ext_iff]
        simp] at whole

theorem checkKey_eq_ok {text : Bytes} {reserved : ReservedKeys} :
    checkKey key reserved = .ok text ↔
      text = key ∧ IsKey key ∧ (reserved = .reject → ¬reservedTagKeyPrefix <+: key) := by
  cases key with
  | nil => simp [checkKey, IsKey]
  | cons first later =>
      rw [checkKey]
      constructor
      · intro checked
        split at checked
        · cases checked
        · rename_i short
          split at checked
          · cases checked
          · rename_i start
            split at checked
            · cases checked
            · rename_i inner
              split at checked
              · cases checked
              · rename_i allowed
                split at checked
                · obtain rfl := Except.ok.inj checked
                  refine ⟨rfl, ⟨first, later, rfl, Nat.le_of_not_lt short, by simpa using start,
                    ?_⟩, fun rejects reserved => allowed ⟨rejects, reserved⟩⟩
                  simpa using List.findIdx?_eq_none_iff.mp inner
                · cases checked
      · rintro ⟨rfl, isKey, allowed⟩
        have text := isText_of_ascii fun byte member => (of_isKeyByte (isKey.bytes byte member)).2
        obtain ⟨_, _, same, short, start, inner⟩ := isKey
        obtain ⟨rfl, rfl⟩ := List.cons.inj same
        have none : (later.findIdx? fun byte => !isKeyByte byte) = none :=
          List.findIdx?_eq_none_iff.mpr fun byte member => by simp [inner byte member]
        rw [if_neg (Nat.not_lt.mpr short), if_neg (by simp [start]), none]
        simp only []
        rw [if_neg fun both => allowed both.1 both.2, if_pos text]

theorem checkValue_eq_ok {text : Bytes} :
    checkValue key value = .ok text ↔ text = value ∧ IsValue value := by
  rw [checkValue]
  constructor
  · intro checked
    split at checked
    · cases checked
    · rename_i filled
      split at checked
      · cases checked
      · rename_i short
        split at checked
        · cases checked
        · rename_i clean
          split at checked
          · rename_i valid
            obtain rfl := Except.ok.inj checked
            exact ⟨rfl, filled, Nat.le_of_not_lt short,
              by simpa using List.findIdx?_eq_none_iff.mp clean, valid⟩
          · cases checked
  · rintro ⟨rfl, filled, short, clean, valid⟩
    rw [if_neg filled, if_neg (Nat.not_lt.mpr short), List.findIdx?_eq_none_iff.mpr clean]
    simp only []
    rw [if_pos valid]

theorem not_mem_key (isKey : IsKey key) (low : separator.toNat < 0x2D) :
    separator ∉ key := fun member => by
  have := of_isKeyByte (isKey.bytes separator member)
  omega

theorem not_mem_value (isValue : IsValue value) (control : isAsciiControl separator = true) :
    separator ∉ value := fun member => by
  rw [isValue.2.2.1 separator member] at control
  cases control

/-- A tag as it is stored. -/
def pairText (pair : Pair) : Bytes := pair.1 ++ tagKeyValueSeparator :: pair.2

/-- Whether a tag is within the grammar. -/
def IsPair (pair : Pair) : Prop := IsKey pair.1 ∧ IsValue pair.2

theorem splitOnce_eq_some {bytes first rest : Bytes} :
    splitOnce separator bytes = some (first, rest) ↔
      bytes = first ++ separator :: rest ∧ separator ∉ first := by
  constructor
  · intro found
    rw [splitOnce] at found
    split at found
    · rename_i member
      simp only [Option.some.injEq, Prod.mk.injEq] at found
      obtain ⟨rfl, rfl⟩ := found
      refine ⟨?_, fun inside => by simpa using List.mem_takeWhile_imp inside⟩
      cases behind : bytes.dropWhile (· != separator) with
      | nil =>
          have all := List.dropWhile_eq_nil_iff.mp behind separator member
          simp at all
      | cons next rest =>
          have at_separator : next = separator := by
            have head := List.head_dropWhile_not (· != separator) (l := bytes) (by simp [behind])
            simpa [behind] using head
          conv_lhs => rw [← List.takeWhile_append_dropWhile (p := (· != separator)) (l := bytes)]
          rw [behind, at_separator, List.tail_cons]
    · cases found
  · rintro ⟨rfl, outside⟩
    have until_separator : ∀ byte ∈ first, (byte != separator) = true := fun byte member =>
      bne_iff_ne.mpr fun same => outside (same ▸ member)
    rw [splitOnce, if_pos (by simp), List.takeWhile_append_of_pos until_separator,
      List.dropWhile_append_of_pos until_separator]
    simp

theorem splitOnce_eq_none {bytes : Bytes} :
    splitOnce separator bytes = none ↔ separator ∉ bytes := by
  rw [splitOnce]
  split
  · rename_i member
    simp [member]
  · rename_i outside
    simp [outside]

theorem splitOnce_pairText {pair : Pair} (isKey : IsKey pair.1) :
    splitOnce tagKeyValueSeparator (pairText pair) = some pair :=
  splitOnce_eq_some.mpr ⟨rfl, not_mem_key isKey (by decide)⟩

theorem not_mem_pairText {pair : Pair} (isPair : IsPair pair) :
    tagPairSeparator ∉ pairText pair := by
  rw [pairText, List.mem_append, List.mem_cons]
  rintro (inside | same | inside)
  · exact not_mem_key isPair.1 (by decide) inside
  · exact absurd same (by decide)
  · exact not_mem_value isPair.2 (by decide) inside

theorem pairText_ne_nil (pair : Pair) : pairText pair ≠ [] :=
  List.append_ne_nil_of_right_ne_nil _ (List.cons_ne_nil _ _)

theorem pushPair_of_ne_nil (filled : canonical ≠ []) (pair : Pair) :
    pushPair canonical pair.1 pair.2 = canonical ++ tagPairSeparator :: pairText pair := by
  rw [pushPair, if_neg filled, pairText]
  simp

theorem foldl_pushPair (filled : canonical ≠ []) (pairs : List Pair) :
    pairs.foldl (fun canonical pair => pushPair canonical pair.1 pair.2) canonical =
      canonical ++ pairs.flatMap fun pair => tagPairSeparator :: pairText pair := by
  induction pairs generalizing canonical with
  | nil => simp
  | cons pair pairs ih =>
      rw [List.foldl_cons, pushPair_of_ne_nil filled,
        ih (List.append_ne_nil_of_left_ne_nil filled _), List.flatMap_cons, List.append_assoc]

theorem canonicalForm_cons (pair : Pair) (pairs : List Pair) :
    canonicalForm (pair :: pairs) =
      pairText pair ++ pairs.flatMap fun pair => tagPairSeparator :: pairText pair := by
  have first : pushPair [] pair.1 pair.2 = pairText pair := by
    rw [pushPair, if_pos rfl, pairText]
    simp
  rw [canonicalForm, List.foldl_cons, first, foldl_pushPair (pairText_ne_nil pair)]

theorem canonicalForm_cons_cons (first second : Pair) (pairs : List Pair) :
    canonicalForm (first :: second :: pairs) =
      pairText first ++ tagPairSeparator :: canonicalForm (second :: pairs) := by
  rw [canonicalForm_cons, canonicalForm_cons, List.flatMap_cons, List.cons_append]

theorem canonicalForm_ne_nil (filled : pairs ≠ []) : canonicalForm pairs ≠ [] := by
  cases pairs with
  | nil => exact absurd rfl filled
  | cons pair pairs =>
      rw [canonicalForm_cons]
      exact List.append_ne_nil_of_left_ne_nil (pairText_ne_nil pair) _

theorem splitOn_canonicalForm (filled : pairs ≠ []) (inside : ∀ pair ∈ pairs, IsPair pair) :
    (canonicalForm pairs).splitOn tagPairSeparator = pairs.map pairText := by
  induction pairs with
  | nil => exact absurd rfl filled
  | cons first pairs ih =>
      obtain ⟨own, others⟩ := List.forall_mem_cons.mp inside
      cases pairs with
      | nil =>
          rw [canonicalForm_cons, List.flatMap_nil, List.append_nil,
            List.splitOn_eq_singleton (not_mem_pairText own)]
          rfl
      | cons second pairs =>
          rw [canonicalForm_cons_cons,
            List.splitOn_append_cons_self_of_not_mem (not_mem_pairText own),
            ih (List.cons_ne_nil _ _) others]
          rfl

theorem canonicalForm_of_splitOn {bytes : Bytes}
    (parts : bytes.splitOn tagPairSeparator = pairs.map pairText) :
    bytes = canonicalForm pairs := by
  have joined : [tagPairSeparator].intercalate (bytes.splitOn tagPairSeparator) = bytes :=
    List.intercalate_splitOn tagPairSeparator
  rw [parts] at joined
  rw [← joined]
  clear joined parts
  induction pairs with
  | nil => rfl
  | cons first pairs ih =>
      cases pairs with
      | nil => simp [canonicalForm_cons]
      | cons second pairs =>
          rw [canonicalForm_cons_cons, ← ih, List.map_cons, List.map_cons,
            List.intercalate_cons_cons, List.append_assoc, List.singleton_append]

theorem length_canonicalForm (pairs : List Pair) :
    (canonicalForm pairs).length =
      (pairs.map fun pair => pair.1.length + 1 + pair.2.length).sum + (pairs.length - 1) := by
  induction pairs with
  | nil => rfl
  | cons first pairs ih =>
      cases pairs with
      | nil =>
          simp [canonicalForm_cons, pairText]
          omega
      | cons second pairs =>
          rw [canonicalForm_cons_cons, List.length_append, List.length_cons, ih, pairText]
          simp only [List.length_append, List.length_cons, List.map_cons, List.sum_cons]
          omega

/-- Tags within the grammar and the caps, strictly sorted by key. -/
structure Canonical (pairs : List Pair) : Prop where
  sorted : pairs.Pairwise fun left right => compare left.1 right.1 = .lt
  inside : ∀ pair ∈ pairs, IsPair pair
  few : pairs.length ≤ maxTags
  short : (canonicalForm pairs).length ≤ maxSeriesKeyBytes

theorem checkPairs_eq_ok :
    checkPairs pairs = .ok held ↔ held = pairs ∧
      ∀ pair ∈ pairs, IsPair pair ∧ ¬reservedTagKeyPrefix <+: pair.1 := by
  induction pairs generalizing held with
  | nil => simp [checkPairs, eq_comm]
  | cons pair pairs ih =>
      obtain ⟨key, value⟩ := pair
      simp only [checkPairs, bind_eq_ok, pure_eq_ok, checkKey_eq_ok, checkValue_eq_ok, ih,
        List.forall_mem_cons]
      constructor
      · rintro ⟨_, ⟨rfl, isKey, allowed⟩, _, ⟨rfl, isValue⟩, _, ⟨rfl, others⟩, rfl⟩
        exact ⟨rfl, ⟨⟨isKey, isValue⟩, allowed trivial⟩, others⟩
      · rintro ⟨rfl, ⟨⟨isKey, isValue⟩, allowed⟩, others⟩
        exact ⟨key, ⟨rfl, isKey, fun _ => allowed⟩, value, ⟨rfl, isValue⟩, pairs, ⟨rfl, others⟩,
          rfl⟩

theorem compare_swap (left right : Bytes) : compare right left = (compare left right).swap :=
  Std.OrientedCmp.eq_swap

instance {Value : Type} : Std.Total (@KeyLE Value) where
  total left right := by
    unfold KeyLE
    rw [compare_swap left.1 right.1]
    cases compare left.1 right.1 <;> decide

instance {Value : Type} : IsTrans (Bytes × Value) KeyLE where
  trans _ _ _ := Std.TransCmp.isLE_trans

theorem lt_of_keyLE (below : KeyLE left right) (apart : left.1 ≠ right.1) :
    compare left.1 right.1 = .lt := by
  unfold KeyLE at below
  cases order : compare left.1 right.1 with
  | lt => rfl
  | eq => exact absurd (Std.LawfulEqCmp.eq_of_compare order) apart
  | gt =>
      rw [order] at below
      cases below

theorem repeatedKey_eq_none {pairs : List (Bytes × Value)} (sorted : pairs.Pairwise KeyLE) :
    repeatedKey pairs = none ↔
      pairs.Pairwise fun left right => compare left.1 right.1 = .lt := by
  induction pairs with
  | nil => exact iff_of_true rfl .nil
  | cons first pairs ih =>
      cases pairs with
      | nil => exact iff_of_true rfl (List.pairwise_singleton _ _)
      | cons second pairs =>
          obtain ⟨least, rest⟩ := List.pairwise_cons.mp sorted
          rw [repeatedKey, List.pairwise_cons, ← ih rest]
          constructor
          · intro fresh
            split at fresh
            · cases fresh
            · rename_i apart
              have below := lt_of_keyLE (least second List.mem_cons_self) apart
              refine ⟨fun pair member => ?_, fresh⟩
              rcases List.mem_cons.mp member with rfl | later
              · exact below
              · exact Std.TransCmp.lt_trans below
                  ((List.pairwise_cons.mp ((ih rest).mp fresh)).1 pair later)
          · rintro ⟨above, fresh⟩
            rw [if_neg fun same => ?_, fresh]
            have below := above second List.mem_cons_self
            have alike : compare second.1 second.1 = .eq := Std.ReflCmp.compare_self
            rw [same, alike] at below
            cases below

theorem eq_of_key_eq {pairs : List (Bytes × Value)}
    (sorted : pairs.Pairwise fun left right => compare left.1 right.1 = .lt) (first : left ∈ pairs)
    (second : right ∈ pairs) (same : left.1 = right.1) : left = right := by
  have apart : pairs.Pairwise fun left right => left.1 ≠ right.1 :=
    sorted.imp fun {left right} below same => by
      have alike : compare left.1 left.1 = .eq := Std.ReflCmp.compare_self
      rw [← same, alike] at below
      cases below
  have : Std.Symm fun left right : Bytes × Value => left.1 ≠ right.1 := ⟨fun _ _ => Ne.symm⟩
  by_contra different
  exact apart.forall first second different same

theorem eq_of_sorted (perm : pairs.Perm held) (sorted : pairs.Pairwise KeyLE)
    (strict : held.Pairwise fun left right => compare left.1 right.1 = .lt) : pairs = held := by
  refine perm.eq_of_pairwise ?_ sorted (strict.imp ?_)
  · intro left right first second below above
    refine eq_of_key_eq strict (perm.subset first) second ?_
    by_contra apart
    rw [KeyLE, compare_swap, lt_of_keyLE below apart] at above
    cases above
  · intro left right below
    rw [KeyLE, below]
    rfl

theorem fromPairs_eq_ok :
    fromPairs pairs = .ok key ↔ ∃ held, held.Perm pairs ∧ Canonical held ∧
      (∀ pair ∈ held, ¬reservedTagKeyPrefix <+: pair.1) ∧ key = canonicalForm held := by
  have perm := List.perm_insertionSort KeyLE pairs
  have sorted := List.pairwise_insertionSort KeyLE pairs
  have length_held := length_canonicalForm (pairs.insertionSort KeyLE)
  constructor
  · intro accepted
    rw [fromPairs] at accepted
    split at accepted
    · cases accepted
    · rename_i few
      simp only [bind_eq_ok, checkPairs_eq_ok] at accepted
      obtain ⟨_, ⟨rfl, inside⟩, accepted⟩ := accepted
      split at accepted
      · cases accepted
      · rename_i fresh
        rw [← length_held] at accepted
        split at accepted
        · cases accepted
        · rename_i short
          refine ⟨_, perm, ⟨(repeatedKey_eq_none sorted).mp fresh,
            fun pair member => (inside pair (perm.subset member)).1, ?_, Nat.le_of_not_lt short⟩,
            fun pair member => (inside pair (perm.subset member)).2, (Except.ok.inj accepted).symm⟩
          rw [perm.length_eq]
          exact Nat.le_of_not_lt few
  · rintro ⟨held, same, canonical, allowed, rfl⟩
    have held_eq : pairs.insertionSort KeyLE = held :=
      eq_of_sorted (perm.trans same.symm) sorted canonical.sorted
    rw [fromPairs, if_neg (Nat.not_lt.mpr (same.length_eq ▸ canonical.few))]
    simp only [bind_eq_ok, checkPairs_eq_ok]
    refine ⟨pairs, ⟨rfl, fun pair member => ?_⟩, ?_⟩
    · have member := same.symm.subset member
      exact ⟨canonical.inside pair member, allowed pair member⟩
    · rw [(repeatedKey_eq_none sorted).mpr (held_eq ▸ canonical.sorted)]
      simp only []
      rw [← length_held, held_eq, if_neg (Nat.not_lt.mpr canonical.short)]

end WeftDb.Tags
