import Mathlib.Tactic.Ring
import WeftDb.Index.FrameNames
import WeftDb.Ingest.Batch

/-!
# What the fingerprint distinguishes

The bytes fed to the fingerprint hash are a prefix-free code for the tag set followed by one for
the rows, with the page height between them only when it is set.  Two batches of one shape feed
equal bytes only when they are the same batch.  A batch without a page height can feed the bytes
of a batch with one: then its row count starts with the marker of a page height, and its first
row is read as the rest of the height and the row count.
-/

namespace WeftDb

/-- The number which little-endian bytes spell. -/
def leValue : List UInt8 → Nat
  | [] => 0
  | byte :: later => byte.toNat + 256 * leValue later

theorem leValue_append (front later : List UInt8) :
    leValue (front ++ later) = leValue front + 256 ^ front.length * leValue later := by
  induction front with
  | nil => simp [leValue]
  | cons byte front ih =>
      simp only [List.cons_append, leValue, ih, List.length_cons, pow_succ]
      ring

theorem leValue_inj {left right : List UInt8} (length : left.length = right.length)
    (value : leValue left = leValue right) : left = right := by
  induction left generalizing right with
  | nil =>
      cases right with
      | nil => rfl
      | cons byte right => cases length
  | cons byte left ih =>
      cases right with
      | nil => cases length
      | cons other right =>
          simp only [leValue] at value
          have byte_lt := byte.toNat_lt
          have other_lt := other.toNat_lt
          have same : byte = other := UInt8.toNat_inj.mp (by omega)
          have rest : left = right := ih (Nat.succ.inj length) (by omega)
          rw [same, rest]

@[simp]
theorem length_leBytes (word : Nat) : (leBytes word).length = 8 := by
  simp [leBytes]

theorem leValue_leBytes (word : Nat) : leValue (leBytes word) = word % 2 ^ 64 := by
  have bytes : leBytes word =
      [UInt8.ofNat (word / 256 ^ 0), UInt8.ofNat (word / 256 ^ 1), UInt8.ofNat (word / 256 ^ 2),
        UInt8.ofNat (word / 256 ^ 3), UInt8.ofNat (word / 256 ^ 4), UInt8.ofNat (word / 256 ^ 5),
        UInt8.ofNat (word / 256 ^ 6), UInt8.ofNat (word / 256 ^ 7)] := rfl
  rw [bytes]
  simp only [leValue, UInt8.toNat_ofNat']
  omega

variable {front back again : List UInt8} {left right : List Char} {separator : Char}

theorem leBytes_append_inj {left right : Nat} (left_lt : left < 2 ^ 64) (right_lt : right < 2 ^ 64)
    (equal : leBytes left ++ front = leBytes right ++ back) : left = right ∧ front = back := by
  obtain ⟨words, rest⟩ := List.append_inj equal (by simp)
  have values := congrArg leValue words
  rw [leValue_leBytes, leValue_leBytes, Nat.mod_eq_of_lt left_lt, Nat.mod_eq_of_lt right_lt]
    at values
  exact ⟨values, rest⟩

/-- The bytes of a text. -/
def utf8 (text : List Char) : List UInt8 :=
  text.flatMap String.utf8EncodeChar

theorem lengthPrefixed_eq (text : List Char) :
    lengthPrefixed text = leBytes (utf8 text).length ++ utf8 text := by
  rfl

theorem utf8_injective (equal : utf8 left = utf8 right) : left = right := by
  have encoded : ∀ text : List Char,
      (⟨(utf8 text).toArray⟩ : ByteArray) = (String.ofList text).toByteArray := by
    intro text
    rw [← utf8_bytes (String.ofList text), String.toList_ofList]
    rfl
  have same : String.ofList left = String.ofList right := by
    apply String.toByteArray_inj.mp
    rw [← encoded left, ← encoded right, equal]
  calc
    left = (String.ofList left).toList := String.toList_ofList.symm
    _ = (String.ofList right).toList := by rw [same]
    _ = right := String.toList_ofList

theorem lengthPrefixed_append_inj (left_lt : (utf8 left).length < 2 ^ 64)
    (right_lt : (utf8 right).length < 2 ^ 64)
    (equal : lengthPrefixed left ++ front = lengthPrefixed right ++ back) :
    left = right ∧ front = back := by
  rw [lengthPrefixed_eq, lengthPrefixed_eq, List.append_assoc, List.append_assoc] at equal
  obtain ⟨lengths, bodies⟩ := leBytes_append_inj left_lt right_lt equal
  obtain ⟨texts, rest⟩ := List.append_inj bodies lengths
  exact ⟨utf8_injective texts, rest⟩

namespace BigDecimal

variable (value : BigDecimal)

theorem digits_ne_nil : value.digits ≠ [] :=
  Nat.toDigits_ne_nil

theorem isDigit_of_mem_digits {char : Char} (member : char ∈ value.digits) :
    char.isDigit = true :=
  Nat.isDigit_of_mem_toDigits (by omega) (by omega) member

theorem toPlainString_unsigned (sign : List Char) (signed : sign = [] ∨ sign = ['-'])
    {body : List Char} {first : Char} {later : List Char} (starts : body = first :: later)
    (digit : first.isDigit = true) :
    ∃ head rest, sign ++ body = head :: rest ∧ (head = '-' ∨ head.isDigit = true) := by
  rcases signed with rfl | rfl
  · exact ⟨first, later, starts, .inr digit⟩
  · exact ⟨'-', body, rfl, .inl rfl⟩

theorem toPlainString_head :
    ∃ first later, value.toPlainString = first :: later ∧
      (first = '-' ∨ first.isDigit = true) := by
  obtain ⟨first, later, digits_eq⟩ := List.exists_cons_of_ne_nil value.digits_ne_nil
  have digit : first.isDigit = true := by
    refine value.isDigit_of_mem_digits ?_
    rw [digits_eq]
    exact List.mem_cons_self
  have signed : (if value.mantissa < 0 then ['-'] else []) = [] ∨
      (if value.mantissa < 0 then ['-'] else []) = ['-'] := by
    split
    · exact .inr rfl
    · exact .inl rfl
  unfold toPlainString
  simp only
  split
  · rw [List.append_assoc]
    have starts : value.digits ++ List.replicate value.scale.natAbs '0' =
        first :: (later ++ List.replicate value.scale.natAbs '0') := by
      rw [digits_eq, List.cons_append]
    exact toPlainString_unsigned _ signed starts digit
  · split
    · rename_i longer
      rw [List.append_assoc]
      obtain ⟨count, count_eq⟩ : ∃ count, value.digits.length - value.scale.toNat = count + 1 :=
        ⟨value.digits.length - value.scale.toNat - 1, by omega⟩
      rw [count_eq, digits_eq, List.take_succ_cons]
      exact toPlainString_unsigned _ signed rfl digit
    · rw [List.append_assoc]
      exact toPlainString_unsigned _ signed rfl (by decide)

theorem toPlainString_length :
    value.toPlainString.length ≤ value.plainDigitCount + 2 := by
  have sign_le : (if value.mantissa < 0 then ['-'] else []).length ≤ 1 := by
    split <;> simp
  have digits_pos := List.length_pos_of_ne_nil value.digits_ne_nil
  unfold toPlainString
  generalize (if value.mantissa < 0 then ['-'] else []) = sign at sign_le ⊢
  unfold plainDigitCount
  simp only
  by_cases whole : value.scale ≤ 0
  · rw [if_pos whole]
    simp only [List.length_append, List.length_replicate]
    by_cases zero : 0 ≤ value.scale
    · rw [if_pos zero]
      split <;> omega
    · rw [if_neg zero]
      omega
  · rw [if_neg whole, if_pos (show 0 ≤ value.scale by omega)]
    by_cases longer : value.digits.length > value.scale.toNat
    · rw [if_pos longer, if_pos longer]
      simp only [List.length_append, List.length_take, List.length_cons, List.length_drop]
      omega
    · rw [if_neg longer, if_neg longer]
      simp only [List.length_append, List.length_replicate, List.length_cons]
      omega

end BigDecimal

theorem length_utf8_le (text : List Char) : (utf8 text).length ≤ 4 * text.length := by
  induction text with
  | nil => exact Nat.le_refl _
  | cons char text ih =>
      have one : (String.utf8EncodeChar char).length ≤ 4 := by
        rw [String.length_utf8EncodeChar]
        exact Char.utf8Size_le_four char
      unfold utf8 at ih ⊢
      rw [List.flatMap_cons, List.length_append, List.length_cons]
      omega

theorem utf8_length_of_domain {value : BigDecimal} (domain : checkDecimalDomain value = true) :
    (utf8 value.toPlainString).length < 2 ^ 64 := by
  have bytes := length_utf8_le value.toPlainString
  have chars := value.toPlainString_length
  have bound : value.plainDigitCount ≤ 1024 := of_decide_eq_true domain
  omega

theorem utf8_head_of_plain (value : BigDecimal) :
    ∃ first later, utf8 value.toPlainString = first :: later ∧ first ≠ 0 ∧ first ≠ 1 := by
  obtain ⟨char, rest, plain, kind⟩ := value.toPlainString_head
  have bounds : 45 ≤ char.val.toNat ∧ char.val.toNat ≤ 57 := by
    rcases kind with rfl | digit
    · decide
    · simp only [Char.isDigit, Bool.and_eq_true, decide_eq_true_eq] at digit
      have low : 48 ≤ char.val.toNat := UInt32.le_iff_toNat_le.mp digit.1
      have high : char.val.toNat ≤ 57 := UInt32.le_iff_toNat_le.mp digit.2
      omega
  have size : char.utf8Size = 1 := by
    have ascii : char.val ≤ 0x7f := UInt32.le_iff_toNat_le.mpr (Nat.le_trans bounds.2 (by decide))
    exact if_pos ascii
  have byte : char.val.toUInt8.toNat = char.val.toNat := by
    rw [UInt32.toNat_toUInt8]
    omega
  refine ⟨char.val.toUInt8, utf8 rest, ?_, ?_, ?_⟩
  · rw [plain, utf8, List.flatMap_cons, String.utf8EncodeChar_eq_singleton size]
    rfl
  · intro same
    rw [same] at byte
    have zero : (0 : UInt8).toNat = 0 := rfl
    omega
  · intro same
    rw [same] at byte
    have one : (1 : UInt8).toNat = 1 := rfl
    omega

/-- A value as the fingerprint sees it: a null, or a plain form. -/
def plainForm (value : Option BigDecimal) : Option (List Char) :=
  value.map BigDecimal.toPlainString

/-- Whether a timestamp is a 64-bit signed integer. -/
def IsI64 (timestamp : Int) : Prop :=
  -2 ^ 63 ≤ timestamp ∧ timestamp < 2 ^ 63

instance (timestamp : Int) : Decidable (IsI64 timestamp) :=
  inferInstanceAs (Decidable (_ ∧ _))

namespace IngestBatch

theorem unsigned_lt (timestamp : Int) : (timestamp % 2 ^ 64).toNat < 2 ^ 64 := by
  omega

theorem unsigned_inj {left right : Int} (left_range : IsI64 left) (right_range : IsI64 right)
    (equal : (left % 2 ^ 64).toNat = (right % 2 ^ 64).toNat) : left = right := by
  unfold IsI64 at left_range right_range
  omega

variable {value : Option BigDecimal} {row bytes : List UInt8} {timestamp : Int}

theorem rowPreimage_eq_some (fed : rowPreimage timestamp value = some row) :
    ∃ tail, row = leBytes (timestamp % 2 ^ 64).toNat ++ tail ∧
      (value = none ∧ tail = [0] ∨
        ∃ number, value = some number ∧ checkDecimalDomain number = true ∧
          tail = 1 :: lengthPrefixed number.toPlainString) := by
  cases value with
  | none =>
      cases fed
      exact ⟨[0], rfl, .inl ⟨rfl, rfl⟩⟩
  | some number =>
      simp only [rowPreimage] at fed
      split at fed
      · rename_i domain
        cases fed
        exact ⟨_, rfl, .inr ⟨number, rfl, domain, rfl⟩⟩
      · cases fed

theorem rowPreimage_append_inj {left right : Int} {other : Option BigDecimal}
    (left_range : IsI64 left) (right_range : IsI64 right) (fed : rowPreimage left value = some row)
    (other_fed : rowPreimage right other = some again) (equal : row ++ front = again ++ back) :
    left = right ∧ plainForm value = plainForm other ∧ front = back := by
  obtain ⟨tail, rfl, kind⟩ := rowPreimage_eq_some fed
  obtain ⟨other_tail, rfl, other_kind⟩ := rowPreimage_eq_some other_fed
  rw [List.append_assoc, List.append_assoc] at equal
  obtain ⟨stamps, tails⟩ := leBytes_append_inj (unsigned_lt left) (unsigned_lt right) equal
  refine ⟨unsigned_inj left_range right_range stamps, ?_⟩
  rcases kind with ⟨rfl, rfl⟩ | ⟨number, rfl, domain, rfl⟩
  · rcases other_kind with ⟨rfl, rfl⟩ | ⟨number, rfl, domain, rfl⟩
    · exact ⟨rfl, (List.cons.inj tails).2⟩
    · cases (List.cons.inj tails).1
  · rcases other_kind with ⟨rfl, rfl⟩ | ⟨again, rfl, again_domain, rfl⟩
    · cases (List.cons.inj tails).1
    · have texts := (List.cons.inj tails).2
      obtain ⟨plain, rest⟩ := lengthPrefixed_append_inj (utf8_length_of_domain domain)
        (utf8_length_of_domain again_domain) texts
      exact ⟨congrArg some plain, rest⟩

theorem rowsPreimage_cons {later : List (Int × Option BigDecimal)}
    (fed : rowsPreimage ((timestamp, value) :: later) = some bytes) :
    ∃ row rest, rowPreimage timestamp value = some row ∧ rowsPreimage later = some rest ∧
      bytes = row ++ rest := by
  simp only [rowsPreimage] at fed
  split at fed
  · rename_i row rest first others
    cases fed
    exact ⟨row, rest, first, others, rfl⟩
  · cases fed

theorem rowPreimage_ne_nil (fed : rowPreimage timestamp value = some row) : row ≠ [] := by
  obtain ⟨tail, rfl, -⟩ := rowPreimage_eq_some fed
  intro empty
  have length := congrArg List.length empty
  simp at length

theorem rowsPreimage_inj {left right : List (Int × Option BigDecimal)}
    (left_range : ∀ row ∈ left, IsI64 row.1) (right_range : ∀ row ∈ right, IsI64 row.1)
    (fed : rowsPreimage left = some bytes) (again : rowsPreimage right = some bytes) :
    left.map (fun row => (row.1, plainForm row.2)) =
      right.map fun row => (row.1, plainForm row.2) := by
  induction left generalizing right bytes with
  | nil =>
      cases fed
      cases right with
      | nil => rfl
      | cons row right =>
          obtain ⟨timestamp, value⟩ := row
          obtain ⟨first, rest, row_fed, -, empty⟩ := rowsPreimage_cons again
          exact absurd (List.append_eq_nil_iff.mp empty.symm).1 (rowPreimage_ne_nil row_fed)
  | cons row left ih =>
      obtain ⟨timestamp, value⟩ := row
      obtain ⟨first, rest, row_fed, rest_fed, rfl⟩ := rowsPreimage_cons fed
      cases right with
      | nil =>
          injection again with empty
          exact absurd (List.append_eq_nil_iff.mp empty.symm).1 (rowPreimage_ne_nil row_fed)
      | cons other right =>
          obtain ⟨stamp, number⟩ := other
          obtain ⟨second, others, other_fed, others_fed, same⟩ := rowsPreimage_cons again
          obtain ⟨stamps, values, rfl⟩ := rowPreimage_append_inj
            (left_range _ List.mem_cons_self) (right_range _ List.mem_cons_self) row_fed
            other_fed same
          have tails := ih (fun row member => left_range row (List.mem_cons_of_mem _ member))
            (fun row member => right_range row (List.mem_cons_of_mem _ member)) rest_fed others_fed
          rw [List.map_cons, List.map_cons, tails, stamps, values]

end IngestBatch

/-- The most tags, and the longest key, value and canonical key in bytes. -/
def maxTags : Nat := 16
def maxTagKeyBytes : Nat := 128
def maxTagValueBytes : Nat := 256
def maxSeriesKeyBytes : Nat := 1024

def isKeyStart (char : Char) : Bool :=
  char.isAlpha || char == '_'

def isKeyByte (char : Char) : Bool :=
  char.isAlphanum || char == '_' || char == '.' || char == '-'

/-- Whether a character is below the space or the delete character. -/
def isControl (char : Char) : Bool :=
  char.val < 0x20 || char.val == 0x7f

def checkKey (key : String) : Bool :=
  match key.toList with
  | [] => false
  | first :: later =>
      decide ((utf8 key.toList).length ≤ maxTagKeyBytes) && isKeyStart first && later.all isKeyByte

def checkValue (value : String) : Bool :=
  decide (value ≠ "") && decide ((utf8 value.toList).length ≤ maxTagValueBytes) &&
    value.toList.all fun char => !isControl char

/-- A tag set which `from_pairs` or `from_canonical` accepts; only a canonical key read back may
hold a reserved key. -/
structure TagSet.Valid (groups : TagSet) : Prop where
  count : groups.tags.length ≤ maxTags
  keys : ∀ tag ∈ groups.tags, checkKey tag.1 = true
  values : ∀ tag ∈ groups.tags, checkValue tag.2 = true
  sorted : (groups.tags.map Prod.fst).Pairwise (· < ·)
  bytes : (utf8 groups.seriesKey.toList).length ≤ maxSeriesKeyBytes

theorem TagSet.valid_untagged : TagSet.Valid ⟨[]⟩ where
  count := Nat.zero_le _
  keys := by simp
  values := by simp
  sorted := List.Pairwise.nil
  bytes := by decide

theorem append_separator_inj {front back : List Char} (left_free : separator ∉ left)
    (right_free : separator ∉ right)
    (equal : left ++ separator :: front = right ++ separator :: back) :
    left = right ∧ front = back := by
  induction left generalizing right with
  | nil =>
      cases right with
      | nil => exact ⟨rfl, (List.cons.inj equal).2⟩
      | cons char right =>
          have same := (List.cons.inj equal).1
          exact absurd (same ▸ List.mem_cons_self) right_free
  | cons char left ih =>
      cases right with
      | nil =>
          have same := (List.cons.inj equal).1
          exact absurd (same ▸ List.mem_cons_self) left_free
      | cons other right =>
          obtain ⟨same, rest⟩ := List.cons.inj equal
          obtain ⟨heads, tails⟩ := ih (fun member => left_free (List.mem_cons_of_mem _ member))
            (fun member => right_free (List.mem_cons_of_mem _ member)) rest
          exact ⟨by rw [same, heads], tails⟩

/-- Texts which hold no separator are determined by their concatenation with separators. -/
theorem intercalate_inj {left right : List (List Char)}
    (left_free : ∀ text ∈ left, separator ∉ text ∧ text ≠ [])
    (right_free : ∀ text ∈ right, separator ∉ text ∧ text ≠ [])
    (equal : [separator].intercalate left = [separator].intercalate right) : left = right := by
  have starts : ∀ {first : List Char} {later : List (List Char)}, first ≠ [] →
      [separator].intercalate (first :: later) ≠ [] := by
    intro first later nonempty
    cases later with
    | nil => simpa using nonempty
    | cons second later => simp [List.intercalate_cons_cons]
  induction left generalizing right with
  | nil =>
      cases right with
      | nil => rfl
      | cons second right =>
          exact absurd equal.symm (starts (right_free second List.mem_cons_self).2)
  | cons first left ih =>
      obtain ⟨first_free, first_some⟩ := left_free first List.mem_cons_self
      have left_later := fun text member => left_free text (List.mem_cons_of_mem first member)
      cases right with
      | nil => exact absurd equal (starts first_some)
      | cons second right =>
          obtain ⟨second_free, second_some⟩ := right_free second List.mem_cons_self
          have right_later := fun text member =>
            right_free text (List.mem_cons_of_mem second member)
          cases left with
          | nil =>
              cases right with
              | nil => simpa using equal
              | cons third right =>
                  rw [List.intercalate_singleton, List.intercalate_cons_cons] at equal
                  refine absurd ?_ first_free
                  rw [equal]
                  simp
          | cons other left =>
              cases right with
              | nil =>
                  rw [List.intercalate_singleton, List.intercalate_cons_cons] at equal
                  refine absurd ?_ second_free
                  rw [← equal]
                  simp
              | cons third right =>
                  rw [List.intercalate_cons_cons, List.intercalate_cons_cons, List.append_assoc,
                    List.append_assoc] at equal
                  obtain ⟨heads, tails⟩ := append_separator_inj first_free second_free equal
                  rw [heads, ih left_later right_later tails]

theorem not_mem_of_checkKey {key : String} (valid : checkKey key = true) (char : Char)
    (foreign : isKeyByte char = false) : char ∉ key.toList := by
  intro member
  unfold checkKey at valid
  split at valid
  · cases valid
  · rename_i first later chars
    rw [chars] at member
    simp only [Bool.and_eq_true, List.all_eq_true] at valid
    have letter : isKeyByte char = true := by
      rcases List.mem_cons.mp member with rfl | member
      · have start := valid.1.2
        simp only [isKeyStart, Bool.or_eq_true] at start
        simp only [isKeyByte, Char.isAlphanum, Bool.or_eq_true]
        tauto
      · exact valid.2 char member
    rw [foreign] at letter
    cases letter

theorem not_mem_of_checkValue {value : String} (valid : checkValue value = true) (char : Char)
    (control : isControl char = true) : char ∉ value.toList := by
  intro member
  simp only [checkValue, Bool.and_eq_true, List.all_eq_true] at valid
  have printable := valid.2 char member
  rw [control] at printable
  cases printable

/-- The text of one tag in the canonical key. -/
def tagText (tag : String × String) : List Char :=
  tag.1.toList ++ '\x1f' :: tag.2.toList

theorem seriesKey_toList (groups : TagSet) :
    groups.seriesKey.toList = ['\x1e'].intercalate (groups.tags.map tagText) := by
  rw [TagSet.seriesKey, String.toList_intercalate, List.map_map]
  congr 1
  refine List.map_congr_left fun tag _ => ?_
  simp only [Function.comp_apply, String.toList_append, tagText]
  rw [List.append_assoc]
  rfl

theorem map_tagText_inj {left right : List (String × String)}
    (left_valid : ∀ tag ∈ left, checkKey tag.1 = true)
    (right_valid : ∀ tag ∈ right, checkKey tag.1 = true)
    (equal : left.map tagText = right.map tagText) : left = right := by
  induction left generalizing right with
  | nil => exact (List.map_eq_nil_iff.mp equal.symm).symm
  | cons tag left ih =>
      cases right with
      | nil => cases equal
      | cons other right =>
          obtain ⟨texts, later⟩ := List.cons.inj equal
          have free := not_mem_of_checkKey (left_valid tag List.mem_cons_self) '\x1f' (by decide)
          have other_free :=
            not_mem_of_checkKey (right_valid other List.mem_cons_self) '\x1f' (by decide)
          obtain ⟨keys, values⟩ := append_separator_inj free other_free texts
          have tags : tag = other :=
            Prod.ext (String.toList_inj.mp keys) (String.toList_inj.mp values)
          rw [tags, ih (fun tag member => left_valid tag (List.mem_cons_of_mem _ member))
            (fun tag member => right_valid tag (List.mem_cons_of_mem _ member)) later]

theorem TagSet.Valid.seriesKey_inj {left right : TagSet} (left_valid : left.Valid)
    (right_valid : right.Valid) (equal : left.seriesKey.toList = right.seriesKey.toList) :
    left = right := by
  have free : ∀ {groups : TagSet}, groups.Valid → ∀ text ∈ groups.tags.map tagText,
      '\x1e' ∉ text ∧ text ≠ [] := by
    intro groups valid text member
    obtain ⟨tag, tag_mem, rfl⟩ := List.mem_map.mp member
    have key := not_mem_of_checkKey (valid.keys tag tag_mem) '\x1e' (by decide)
    have value := not_mem_of_checkValue (valid.values tag tag_mem) '\x1e' (by decide)
    refine ⟨?_, by simp [tagText]⟩
    simp only [tagText, List.mem_append, List.mem_cons, not_or]
    exact ⟨key, by decide, value⟩
  rw [seriesKey_toList, seriesKey_toList] at equal
  have texts := intercalate_inj (free left_valid) (free right_valid) equal
  have tags : left.tags = right.tags := map_tagText_inj left_valid.keys right_valid.keys texts
  cases left
  cases right
  cases tags
  rfl

namespace IngestBatch

/-- What the types of a batch's fields promise, and the equal lengths of its columns. -/
structure Offered (batch : IngestBatch) : Prop where
  groups : batch.groups.Valid
  height : ∀ height, batch.rowsPerPage = some height → height < 2 ^ 64
  count : batch.timestamps.length < 2 ^ 64
  stamps : ∀ timestamp ∈ batch.timestamps, IsI64 timestamp
  columns : batch.timestamps.length = batch.values.length

/-- Whether two batches agree on everything but their keys, values compared in plain form. -/
def Same (left right : IngestBatch) : Prop :=
  left.groups = right.groups ∧ left.rowsPerPage = right.rowsPerPage ∧
    left.timestamps = right.timestamps ∧
    left.values.map plainForm = right.values.map plainForm

/-- Whether every value lies in the decimal domain. -/
def InDomain (batch : IngestBatch) : Prop :=
  ∀ number, some number ∈ batch.values → checkDecimalDomain number = true

/-- Whether the unpaged batch reads as the paged one: its row count starts with the marker of a
page height, its first row is a null, and that row's timestamp spells the top byte of the height
and the number of rows which follow it. -/
def ReadsAs (unpaged paged : IngestBatch) : Prop :=
  unpaged.groups = paged.groups ∧ unpaged.rowsPerPage = none ∧
    unpaged.timestamps.length % 256 = 2 ∧
    ∃ first,
      unpaged.timestamps = first :: paged.timestamps ∧
      unpaged.values.map plainForm = none :: paged.values.map plainForm ∧
      (first % 2 ^ 64).toNat / 256 = paged.timestamps.length ∧
      paged.rowsPerPage =
        some (unpaged.timestamps.length / 256 + (first % 2 ^ 64).toNat % 256 * 2 ^ 56)

variable {batch left right : IngestBatch} {bytes : List UInt8}
variable {rows : List (Int × Option BigDecimal)}

/-- The bytes which the page height feeds. -/
def heightBytes : Option Nat → List UInt8
  | some height => 2 :: leBytes height
  | none => []

theorem preimage_eq (batch : IngestBatch) :
    batch.preimage = (rowsPreimage (batch.timestamps.zip batch.values)).map fun rows =>
      lengthPrefixed batch.groups.seriesKey.toList ++
        (heightBytes batch.rowsPerPage ++ (leBytes batch.timestamps.length ++ rows)) := by
  unfold preimage
  cases batch.rowsPerPage <;> simp only [heightBytes, List.append_assoc]

theorem preimage_eq_some (fed : batch.preimage = some bytes) :
    ∃ rows, rowsPreimage (batch.timestamps.zip batch.values) = some rows ∧
      bytes = lengthPrefixed batch.groups.seriesKey.toList ++
        (heightBytes batch.rowsPerPage ++ (leBytes batch.timestamps.length ++ rows)) := by
  rw [preimage_eq] at fed
  obtain ⟨rows, rows_fed, rfl⟩ := Option.map_eq_some_iff.mp fed
  exact ⟨rows, rows_fed, rfl⟩

theorem stamps_of_zip (offered : batch.Offered) :
    ∀ row ∈ batch.timestamps.zip batch.values, IsI64 row.1 := by
  intro row member
  exact offered.stamps row.1 (List.of_mem_zip member).1

theorem columns_of_rows {stamps others : List Int} {values numbers : List (Option BigDecimal)}
    (columns : stamps.length = values.length) (other_columns : others.length = numbers.length)
    (equal : (stamps.zip values).map (fun row => (row.1, plainForm row.2)) =
      (others.zip numbers).map fun row => (row.1, plainForm row.2)) :
    stamps = others ∧ values.map plainForm = numbers.map plainForm := by
  have stamps_eq := congrArg (List.map Prod.fst) equal
  have values_eq := congrArg (List.map Prod.snd) equal
  simp only [List.map_map, Function.comp_def] at stamps_eq values_eq
  have firsts : ∀ {stamps : List Int} {values : List (Option BigDecimal)},
      stamps.length = values.length → (stamps.zip values).map (fun row => row.1) = stamps := by
    intro stamps values columns
    exact List.map_fst_zip (Nat.le_of_eq columns)
  have seconds : ∀ {stamps : List Int} {values : List (Option BigDecimal)},
      stamps.length = values.length →
        (stamps.zip values).map (fun row => plainForm row.2) = values.map plainForm := by
    intro stamps values columns
    calc
      _ = ((stamps.zip values).map Prod.snd).map plainForm := by
        rw [List.map_map]
        rfl
      _ = values.map plainForm := by rw [List.map_snd_zip (Nat.le_of_eq columns.symm)]
  rw [firsts columns, firsts other_columns] at stamps_eq
  rw [seconds columns, seconds other_columns] at values_eq
  exact ⟨stamps_eq, values_eq⟩

theorem same_of_rows (left_offered : left.Offered) (right_offered : right.Offered)
    (groups : left.groups = right.groups) (heights : left.rowsPerPage = right.rowsPerPage)
    {rows : List UInt8} (fed : rowsPreimage (left.timestamps.zip left.values) = some rows)
    (again : rowsPreimage (right.timestamps.zip right.values) = some rows) : left.Same right := by
  have equal := rowsPreimage_inj (stamps_of_zip left_offered) (stamps_of_zip right_offered)
    fed again
  obtain ⟨stamps, values⟩ :=
    columns_of_rows left_offered.columns right_offered.columns equal
  exact ⟨groups, heights, stamps, values⟩

theorem words_of_marker {count stamp height others : Nat} {flag : UInt8} (count_lt : count < 2 ^ 64)
    (stamp_lt : stamp < 2 ^ 64) (height_lt : height < 2 ^ 64) (others_lt : others < 2 ^ 64)
    (equal : leBytes count ++ (leBytes stamp ++ flag :: front) =
      2 :: (leBytes height ++ (leBytes others ++ back))) :
    count % 256 = 2 ∧ height = count / 256 + stamp % 256 * 2 ^ 56 ∧
      others = stamp / 256 + flag.toNat * 2 ^ 56 ∧ front = back := by
  have split : (leBytes count ++ leBytes stamp ++ [flag]) ++ front =
      (2 :: (leBytes height ++ leBytes others)) ++ back := by
    simpa only [List.append_assoc, List.cons_append, List.nil_append] using equal
  obtain ⟨words, rest⟩ := List.append_inj split (by simp)
  have values := congrArg leValue words
  simp only [leValue, leValue_append, leValue_leBytes, length_leBytes, List.length_append,
    Nat.mod_eq_of_lt count_lt, Nat.mod_eq_of_lt stamp_lt, Nat.mod_eq_of_lt height_lt,
    Nat.mod_eq_of_lt others_lt, UInt8.reduceToNat] at values
  have flag_lt := flag.toNat_lt
  norm_num at values count_lt stamp_lt height_lt others_lt
  refine ⟨?_, ?_, ?_, rest⟩
  all_goals omega

theorem marker_of_words {count stamp : Nat} (marker : count % 256 = 2) (count_lt : count < 2 ^ 64)
    (stamp_lt : stamp < 2 ^ 64) (back : List UInt8) :
    leBytes count ++ (leBytes stamp ++ 0 :: back) =
      2 :: (leBytes (count / 256 + stamp % 256 * 2 ^ 56) ++ (leBytes (stamp / 256) ++ back)) := by
  have words : leBytes count ++ leBytes stamp ++ [0] =
      2 :: (leBytes (count / 256 + stamp % 256 * 2 ^ 56) ++ leBytes (stamp / 256)) := by
    refine leValue_inj (by simp) ?_
    simp only [leValue, leValue_append, leValue_leBytes, length_leBytes, List.length_append,
      UInt8.reduceToNat]
    norm_num at count_lt stamp_lt ⊢
    omega
  have both := congrArg (· ++ back) words
  simpa only [List.append_assoc, List.cons_append, List.nil_append] using both

/-- An unpaged batch which feeds the bytes of a paged one reads as it. -/
theorem readsAs_of_bytes (left_offered : left.Offered) (right_offered : right.Offered)
    (groups : left.groups = right.groups) (unpaged : left.rowsPerPage = none) {height : Nat}
    (paged : right.rowsPerPage = some height) {rows others : List UInt8}
    (fed : rowsPreimage (left.timestamps.zip left.values) = some rows)
    (other_fed : rowsPreimage (right.timestamps.zip right.values) = some others)
    (equal : leBytes left.timestamps.length ++ rows =
      2 :: (leBytes height ++ (leBytes right.timestamps.length ++ others))) :
    left.ReadsAs right := by
  obtain ⟨key, own, page, stamps, values⟩ := left
  cases stamps with
  | nil =>
      have head : UInt8.ofNat (0 / 256 ^ 0) = 2 := (List.cons.inj equal).1
      exact absurd head (by decide)
  | cons first stamps =>
      cases values with
      | nil => cases left_offered.columns
      | cons value values =>
          obtain ⟨row, rest, row_fed, rest_fed, rfl⟩ := rowsPreimage_cons fed
          obtain ⟨tail, rfl, kind⟩ := rowPreimage_eq_some row_fed
          rcases kind with ⟨rfl, rfl⟩ | ⟨number, rfl, domain, rfl⟩
          · obtain ⟨marker, height_eq, count_eq, same⟩ := words_of_marker left_offered.count
              (unsigned_lt first) (right_offered.height height paged) right_offered.count
              (by simpa using equal)
            subst same
            have tail_range : ∀ row ∈ stamps.zip values, IsI64 row.1 := by
              intro row member
              exact left_offered.stamps row.1
                (List.mem_cons_of_mem _ (List.of_mem_zip member).1)
            have tails := rowsPreimage_inj tail_range (stamps_of_zip right_offered) rest_fed
              other_fed
            obtain ⟨stamps_eq, values_eq⟩ :=
              columns_of_rows (Nat.succ.inj left_offered.columns) right_offered.columns tails
            refine ⟨groups, unpaged, marker, first, by rw [stamps_eq], ?_, ?_, ?_⟩
            · rw [List.map_cons, values_eq]
              rfl
            · simpa using count_eq.symm
            · rw [paged, height_eq]
          · -- A present value would make the other batch start with a row whose marker is a digit.
            exfalso
            obtain ⟨-, -, count_eq, same⟩ := words_of_marker left_offered.count
              (unsigned_lt first) (right_offered.height height paged) right_offered.count
              (by simpa using equal)
            obtain ⟨other_key, other_own, other_page, other_stamps, other_values⟩ := right
            cases other_stamps with
            | nil => simp at count_eq
            | cons stamp other_stamps =>
                cases other_values with
                | nil => cases right_offered.columns
                | cons other other_values =>
                    obtain ⟨again, later, again_fed, -, rfl⟩ := rowsPreimage_cons other_fed
                    obtain ⟨other_tail, rfl, other_kind⟩ := rowPreimage_eq_some again_fed
                    obtain ⟨digit, chars, text, not_zero, not_one⟩ := utf8_head_of_plain number
                    have short := utf8_length_of_domain domain
                    rw [lengthPrefixed_eq, List.append_assoc, List.append_assoc, text] at same
                    obtain ⟨-, bodies⟩ := leBytes_append_inj (text ▸ short) (unsigned_lt stamp) same
                    rcases other_kind with ⟨-, rfl⟩ | ⟨_, -, -, rfl⟩
                    · exact not_zero (List.cons.inj bodies).1
                    · exact not_one (List.cons.inj bodies).1

theorem same_or_readsAs (left_offered : left.Offered) (right_offered : right.Offered)
    (fed : left.preimage = some bytes) (again : right.preimage = some bytes) :
    left.Same right ∨ left.ReadsAs right ∨ right.ReadsAs left := by
  obtain ⟨rows, rows_fed, rfl⟩ := preimage_eq_some fed
  obtain ⟨others, others_fed, equal⟩ := preimage_eq_some again
  have short : ∀ {batch : IngestBatch}, batch.Offered →
      (utf8 batch.groups.seriesKey.toList).length < 2 ^ 64 := by
    intro batch offered
    exact Nat.lt_of_le_of_lt offered.groups.bytes (by decide)
  obtain ⟨keys, bodies⟩ :=
    lengthPrefixed_append_inj (short left_offered) (short right_offered) equal
  have groups := left_offered.groups.seriesKey_inj right_offered.groups keys
  cases page : left.rowsPerPage with
  | none =>
      cases other : right.rowsPerPage with
      | none =>
          rw [page, other] at bodies
          obtain ⟨-, rest⟩ := leBytes_append_inj left_offered.count right_offered.count bodies
          subst rest
          exact .inl (same_of_rows left_offered right_offered groups (page.trans other.symm)
            rows_fed others_fed)
      | some height =>
          rw [page, other] at bodies
          exact .inr (.inl (readsAs_of_bytes left_offered right_offered groups page other rows_fed
            others_fed bodies))
  | some height =>
      cases other : right.rowsPerPage with
      | none =>
          rw [page, other] at bodies
          exact .inr (.inr (readsAs_of_bytes right_offered left_offered groups.symm other page
            others_fed rows_fed bodies.symm))
      | some again =>
          rw [page, other] at bodies
          obtain ⟨heights, rest⟩ := leBytes_append_inj (left_offered.height height page)
            (right_offered.height again other) (List.cons.inj bodies).2
          obtain ⟨-, rest⟩ := leBytes_append_inj left_offered.count right_offered.count rest
          subst rest
          exact .inl (same_of_rows left_offered right_offered groups
            (page.trans (heights ▸ other.symm)) rows_fed others_fed)

theorem rowsPreimage_of_domain
    (domain : ∀ row ∈ rows, ∀ number, row.2 = some number → checkDecimalDomain number = true) :
    ∃ bytes, rowsPreimage rows = some bytes := by
  induction rows with
  | nil => exact ⟨[], rfl⟩
  | cons row rows ih =>
      obtain ⟨stamp, value⟩ := row
      obtain ⟨rest, rest_fed⟩ := ih fun row member => domain row (List.mem_cons_of_mem _ member)
      have first : ∃ fed, rowPreimage stamp value = some fed := by
        cases value with
        | none => exact ⟨_, rfl⟩
        | some number =>
            simp only [rowPreimage]
            rw [if_pos (domain _ List.mem_cons_self number rfl)]
            exact ⟨_, rfl⟩
      obtain ⟨fed, row_fed⟩ := first
      refine ⟨fed ++ rest, ?_⟩
      simp only [rowsPreimage, row_fed, rest_fed]

theorem rowsPreimage_congr {others : List (Int × Option BigDecimal)}
    (equal : rows.map (fun row => (row.1, plainForm row.2)) =
      others.map fun row => (row.1, plainForm row.2)) (fed : rowsPreimage rows = some bytes)
    (other_fed : rowsPreimage others = some again) : bytes = again := by
  induction rows generalizing others bytes again with
  | nil =>
      have empty := List.map_eq_nil_iff.mp equal.symm
      subst empty
      rw [fed] at other_fed
      exact Option.some.inj other_fed
  | cons row rows ih =>
      cases others with
      | nil => cases equal
      | cons other others =>
          obtain ⟨stamp, value⟩ := row
          obtain ⟨other_stamp, number⟩ := other
          obtain ⟨heads, tails⟩ := List.cons.inj equal
          obtain ⟨stamps, values⟩ := Prod.mk.inj heads
          obtain ⟨first, rest, row_fed, rest_fed, rfl⟩ := rowsPreimage_cons fed
          obtain ⟨second, later, again_fed, later_fed, rfl⟩ := rowsPreimage_cons other_fed
          rw [ih tails rest_fed later_fed]
          refine congrArg (· ++ later) ?_
          obtain ⟨tail, rfl, kind⟩ := rowPreimage_eq_some row_fed
          obtain ⟨other_tail, rfl, other_kind⟩ := rowPreimage_eq_some again_fed
          simp only at stamps
          rw [stamps]
          rcases kind with ⟨rfl, rfl⟩ | ⟨present, rfl, -, rfl⟩
          · rcases other_kind with ⟨rfl, rfl⟩ | ⟨_, rfl, -, rfl⟩
            · rfl
            · cases values
          · rcases other_kind with ⟨rfl, rfl⟩ | ⟨_, rfl, -, rfl⟩
            · cases values
            · rw [Option.some.inj values]

theorem rows_domain (domain : batch.InDomain) :
    ∀ row ∈ batch.timestamps.zip batch.values, ∀ number, row.2 = some number →
      checkDecimalDomain number = true := by
  intro row member number present
  exact domain number (present ▸ (List.of_mem_zip member).2)

theorem preimage_of_readsAs (offered : left.Offered)
    (domain : left.InDomain) (other_domain : right.InDomain) (reads : left.ReadsAs right) :
    ∃ bytes, left.preimage = some bytes ∧ right.preimage = some bytes := by
  obtain ⟨groups, unpaged, marker, first, stamps, values, count, page⟩ := reads
  obtain ⟨others, others_fed⟩ := rowsPreimage_of_domain (rows_domain other_domain)
  have left_rows := rows_domain domain
  have columns := offered.columns
  cases held : left.values with
  | nil =>
      rw [held] at values
      cases values
  | cons value later =>
      rw [held, List.map_cons] at values
      obtain ⟨null, later_values⟩ := List.cons.inj values
      have absent : value = none := Option.map_eq_none_iff.mp null
      subst absent
      rw [stamps, held, List.zip_cons_cons] at left_rows
      rw [stamps, held] at columns
      obtain ⟨rest, rest_fed⟩ := rowsPreimage_of_domain fun row member =>
        left_rows row (List.mem_cons_of_mem _ member)
      have same : rest = others := by
        refine rowsPreimage_congr ?_ rest_fed others_fed
        have pairs : ∀ (stamps : List Int) (values : List (Option BigDecimal)),
            (stamps.zip values).map (fun row => (row.1, plainForm row.2)) =
              stamps.zip (values.map plainForm) := by
          intro stamps values
          rw [List.zip_map_right]
          rfl
        rw [pairs, pairs, later_values]
      subst same
      have bytes := marker_of_words marker offered.count (unsigned_lt first) rest
      rw [count] at bytes
      refine ⟨_, ?_, by rw [preimage_eq, others_fed, Option.map_some]⟩
      rw [preimage_eq, stamps, held, List.zip_cons_cons]
      simp only [rowsPreimage, rowPreimage, rest_fed, Option.map_some]
      rw [unpaged, page, groups, heightBytes, heightBytes, ← stamps]
      simp only [List.nil_append, List.append_assoc, List.cons_append]
      rw [bytes]

theorem domain_of_rowsPreimage (fed : rowsPreimage rows = some bytes) :
    ∀ row ∈ rows, ∀ number, row.2 = some number → checkDecimalDomain number = true := by
  induction rows generalizing bytes with
  | nil => simp
  | cons row rows ih =>
      obtain ⟨stamp, value⟩ := row
      obtain ⟨first, rest, row_fed, rest_fed, -⟩ := rowsPreimage_cons fed
      obtain ⟨tail, -, kind⟩ := rowPreimage_eq_some row_fed
      intro other member number present
      rcases List.mem_cons.mp member with rfl | member
      · simp only at present
        rcases kind with ⟨rfl, -⟩ | ⟨held, rfl, domain, -⟩
        · cases present
        · cases present
          exact domain
      · exact ih rest_fed other member number present

theorem Offered.inDomain (offered : batch.Offered) (fed : batch.preimage = some bytes) :
    batch.InDomain := by
  intro number member
  obtain ⟨rows, rows_fed, -⟩ := preimage_eq_some fed
  have values : (batch.timestamps.zip batch.values).map Prod.snd = batch.values :=
    List.map_snd_zip (Nat.le_of_eq offered.columns.symm)
  rw [← values] at member
  obtain ⟨row, row_mem, present⟩ := List.mem_map.mp member
  exact domain_of_rowsPreimage rows_fed row row_mem number present

/-- Two batches feed the same bytes only when they are the same batch, except for an unpaged
batch and a paged batch as which it reads. -/
theorem preimage_injective_iff (left_offered : left.Offered) (right_offered : right.Offered) :
    (∀ bytes, left.preimage = some bytes → right.preimage = some bytes → left.Same right) ↔
      ¬((left.ReadsAs right ∨ right.ReadsAs left) ∧ left.InDomain ∧ right.InDomain) := by
  constructor
  · rintro injective ⟨reads | reads, left_domain, right_domain⟩
    · obtain ⟨bytes, fed, again⟩ :=
        preimage_of_readsAs left_offered left_domain right_domain reads
      obtain ⟨-, heights, -⟩ := injective bytes fed again
      obtain ⟨-, unpaged, -, first, -, -, -, page⟩ := reads
      rw [unpaged, page] at heights
      cases heights
    · obtain ⟨bytes, fed, again⟩ :=
        preimage_of_readsAs right_offered right_domain left_domain reads
      obtain ⟨-, heights, -⟩ := injective bytes again fed
      obtain ⟨-, unpaged, -, first, -, -, -, page⟩ := reads
      rw [unpaged, page] at heights
      cases heights
  · intro apart bytes fed again
    rcases same_or_readsAs left_offered right_offered fed again with same | reads
    · exact same
    · exact absurd ⟨reads, left_offered.inDomain fed, right_offered.inDomain again⟩ apart

theorem offered_of_nulls (height : Option Nat) (stamps : List Int)
    (height_lt : ∀ page ∈ height, page < 2 ^ 64) (count : stamps.length < 2 ^ 64)
    (range : ∀ stamp ∈ stamps, IsI64 stamp) :
    Offered ⟨"k", ⟨[]⟩, height, stamps, stamps.map fun _ => none⟩ where
  groups := TagSet.valid_untagged
  height := height_lt
  count := count
  stamps := range
  columns := by simp

/-- Without a page height, one null and two nulls feed different bytes. -/
theorem preimage_injective_iff_unpaged :
    preimage ⟨"k", ⟨[]⟩, none, [5], [none]⟩ ≠
      preimage ⟨"k", ⟨[]⟩, none, [5, 7], [none, none]⟩ := by
  have one := offered_of_nulls none [5] (by simp) (by decide) (by decide)
  have two := offered_of_nulls none [5, 7] (by simp) (by decide) (by decide)
  have injective := (preimage_injective_iff one two).mpr (by
    rintro ⟨reads | reads, -⟩
    · obtain ⟨-, -, -, first, -, -, -, page⟩ := reads
      cases page
    · obtain ⟨-, -, -, first, -, -, -, page⟩ := reads
      cases page)
  intro same
  obtain ⟨bytes, fed⟩ : ∃ bytes, preimage ⟨"k", ⟨[]⟩, none, [5], [none]⟩ = some bytes := ⟨_, rfl⟩
  obtain ⟨-, -, stamps, -⟩ := injective bytes fed (same ▸ fed)
  exact absurd stamps (by decide)

/-- Two nulls without a page height feed the bytes of one null with a page height. -/
theorem preimage_not_injective :
    ¬∀ left right : IngestBatch, left.Offered → right.Offered →
      ∀ bytes, left.preimage = some bytes → right.preimage = some bytes → left.Same right := by
  intro injective
  have two := offered_of_nulls none [257, 7] (by simp) (by decide) (by decide)
  have one := offered_of_nulls (some (2 ^ 56)) [7] (by simp) (by decide) (by decide)
  obtain ⟨bytes, fed⟩ :
      ∃ bytes, preimage ⟨"k", ⟨[]⟩, none, [257, 7], [none, none]⟩ = some bytes := ⟨_, rfl⟩
  have again : preimage ⟨"k", ⟨[]⟩, some (2 ^ 56), [7], [none]⟩ = some bytes := by
    rw [← fed]
    decide +kernel
  obtain ⟨-, heights, -⟩ := injective _ _ two one bytes fed again
  cases heights

end IngestBatch

end WeftDb
