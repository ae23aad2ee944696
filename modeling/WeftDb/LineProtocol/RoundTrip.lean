import WeftDb.LineProtocol.Render

/-!
# What is rendered is read back

A record is read back exactly when its names leave no quotation open, the measurement with its tags
together and each field key on its own, and its line is no comment.  An open quotation takes the
next delimiter into the name before it.
-/

namespace WeftDb.LineProtocol

open EscapedText

variable {F64 : Type} {parseFloat : Text → Option F64} {renderFloat : F64 → Text}
variable {text tagset : Text} {value : FieldValue F64} {tag : Text × Text} {record : LineRecord F64}
  {field : Text × FieldValue F64} {delim : Char}

theorem parseDigits_toDigits (value : Nat) : parseDigits (Nat.toDigits 10 value) = some value := by
  have digits : (Nat.toDigits 10 value).all Char.isDigit :=
    List.all_eq_true.mpr fun _ member => Nat.isDigit_of_mem_toDigits (by decide) (by decide) member
  rw [parseDigits, if_pos ⟨Nat.toDigits_ne_nil, digits⟩, Nat.ofDigitChars_ten_toDigits]

theorem parseSigned_of_digit {char : Char} (digit : char.isDigit = true) :
    parseSigned (char :: text) = (parseDigits (char :: text)).map Int.ofNat := by
  unfold parseSigned
  split
  · rename_i same
    obtain ⟨rfl, -⟩ := List.cons.inj same
    cases digit
  · rename_i same
    obtain ⟨rfl, -⟩ := List.cons.inj same
    cases digit
  · rfl

theorem parseSigned_toDigits (value : Nat) :
    parseSigned (Nat.toDigits 10 value) = some (value : Int) := by
  obtain ⟨char, text, shape⟩ := List.exists_cons_of_ne_nil (Nat.toDigits_ne_nil (n := value) (b := 10))
  have digit : char.isDigit = true :=
    Nat.isDigit_of_mem_toDigits (b := 10) (n := value) (by decide) (by decide) (by simp [shape])
  rw [shape, parseSigned_of_digit digit, ← shape, parseDigits_toDigits]
  rfl

theorem parseI64_renderI64 (value : Int64) : parseI64 (renderI64 value) = some value := by
  have signed : parseSigned (renderI64 value) = some value.toInt := by
    unfold renderI64
    cases value.toInt with
    | ofNat magnitude => exact parseSigned_toDigits magnitude
    | negSucc below => simp [parseSigned, parseDigits_toDigits, Int.negSucc_eq]
  have within : Int64.minValue.toInt ≤ value.toInt ∧ value.toInt ≤ Int64.maxValue.toInt :=
    ⟨Int64.minValue_le_toInt value, Int64.toInt_le value⟩
  rw [parseI64, signed, Option.bind_some, if_pos within, Int64.ofInt_toInt]

theorem parseU64_toDigits (value : UInt64) :
    parseU64 (Nat.toDigits 10 value.toNat) = some value := by
  obtain ⟨char, text, shape⟩ :=
    List.exists_cons_of_ne_nil (Nat.toDigits_ne_nil (n := value.toNat) (b := 10))
  have digit : char.isDigit = true :=
    Nat.isDigit_of_mem_toDigits (b := 10) (n := value.toNat) (by decide) (by decide)
      (by simp [shape])
  have unsigned : parseU64 (Nat.toDigits 10 value.toNat) =
      (parseDigits (Nat.toDigits 10 value.toNat)).bind fun value =>
        if value < UInt64.size then some (UInt64.ofNat value) else none := by
    rw [shape]
    unfold parseU64
    split
    · rename_i same
      obtain ⟨rfl, -⟩ := List.cons.inj same
      cases digit
    · rfl
  rw [unsigned, parseDigits_toDigits, Option.bind_some, if_pos value.toNat_lt, UInt64.ofNat_toNat]

theorem suffix_of_number {raw : Text} {suffix : Char} (last : raw.getLast? = some suffix)
    (letter : suffix = 'i' ∨ suffix = 'u') :
    ¬(2 ≤ raw.length ∧ raw.head? = some '"' ∧ raw.getLast? = some '"') ∧
      raw ∉ [['t'], ['T'], ['t', 'r', 'u', 'e'], ['T', 'r', 'u', 'e'], ['T', 'R', 'U', 'E']] ∧
        raw ∉ [['f'], ['F'], ['f', 'a', 'l', 's', 'e'], ['F', 'a', 'l', 's', 'e'],
          ['F', 'A', 'L', 'S', 'E']] := by
  have no_string : ¬(2 ≤ raw.length ∧ raw.head? = some '"' ∧ raw.getLast? = some '"') := by
    rintro ⟨-, -, quote⟩
    rw [last] at quote
    obtain rfl := Option.some.inj quote
    exact absurd letter (by decide)
  have letters : ∀ text ∈ [['t'], ['T'], ['t', 'r', 'u', 'e'], ['T', 'r', 'u', 'e'],
      ['T', 'R', 'U', 'E'], ['f'], ['F'], ['f', 'a', 'l', 's', 'e'], ['F', 'a', 'l', 's', 'e'],
      ['F', 'A', 'L', 'S', 'E']], text.getLast? ≠ some 'i' ∧ text.getLast? ≠ some 'u' := by decide
  have other : ∀ text ∈ [['t'], ['T'], ['t', 'r', 'u', 'e'], ['T', 'r', 'u', 'e'],
      ['T', 'R', 'U', 'E'], ['f'], ['F'], ['f', 'a', 'l', 's', 'e'], ['F', 'a', 'l', 's', 'e'],
      ['F', 'A', 'L', 'S', 'E']], raw ≠ text := by
    rintro text member rfl
    obtain ⟨no_i, no_u⟩ := letters raw member
    rcases letter with rfl | rfl
    · exact no_i last
    · exact no_u last
  exact ⟨no_string, fun member => other raw (List.mem_append_left _ member) rfl,
    fun member => other raw (List.mem_append_right [_, _, _, _, _] member) rfl⟩

theorem parseFieldValue_renderValue (plain : value.Plain) :
    parseFieldValue parseFloat (renderValue renderFloat value) = .ok value := by
  cases value with
  | float value => exact plain.elim
  | integer value =>
      have last : (renderI64 value ++ ['i']).getLast? = some 'i' := List.getLast?_concat
      obtain ⟨no_string, no_true, no_false⟩ := suffix_of_number last (.inl rfl)
      rw [renderValue, parseFieldValue, if_neg no_string, if_neg no_true, if_neg no_false,
        if_pos last, List.dropLast_concat, parseI64_renderI64]
  | unsigned value =>
      have last : (Nat.toDigits 10 value.toNat ++ ['u']).getLast? = some 'u' :=
        List.getLast?_concat
      have no_i : ¬(Nat.toDigits 10 value.toNat ++ ['u']).getLast? = some 'i' := by
        rw [last]
        decide
      obtain ⟨no_string, no_true, no_false⟩ := suffix_of_number last (.inr rfl)
      rw [renderValue, parseFieldValue, if_neg no_string, if_neg no_true, if_neg no_false,
        if_neg no_i, if_pos last, List.dropLast_concat, parseU64_toDigits]
  | boolean value => cases value <;> rfl
  | str text =>
      have string : 2 ≤ (renderValue renderFloat (.str text)).length ∧
          (renderValue renderFloat (.str text)).head? = some '"' ∧
            (renderValue renderFloat (.str text)).getLast? = some '"' := by
        refine ⟨?_, rfl, ?_⟩
        · simp [renderValue]
        · rw [renderValue, List.cons_append, ← List.cons_append, List.getLast?_concat]
      have read : unescape (protect '\\' Quoting text) = text := unescape_protect (by decide) text
      rw [parseFieldValue, if_pos string, renderValue]
      simp only [List.cons_append, List.drop_succ_cons, List.drop_zero, List.dropLast_concat, read]

theorem renderValue_ne_nil (plain : value.Plain) : renderValue renderFloat value ≠ [] := by
  cases value with
  | float value => exact plain.elim
  | boolean value => cases value <;> exact List.cons_ne_nil _ _
  | _ => simp [renderValue]

theorem parseTag_renderTag (held : tag.1 ≠ []) : parseTag (renderTag tag) = .ok tag := by
  have pieces : splitUnescaped (renderTag tag) '=' false = [renderName tag.1, renderName tag.2] := by
    have whole := whole_renderName separator_equals
    have cut := split_append_delim (marks '=' false) (by decide) (by decide)
      (whole tag.1) (renderName tag.2)
    rw [split_of_carry (whole tag.2)] at cut
    exact cut
  rw [parseTag, pieces]
  simp only [ne_eq, renderName_ne_nil held, not_false_eq_true, if_true, unescape_renderName]

theorem parseMeasurementAndTags_renderTagset (renderable : record.Renderable) :
    parseMeasurementAndTags (renderTagset record) = .ok (record.measurement, record.tags) := by
  have pieces : splitUnescaped (renderTagset record) ',' false =
      renderName record.measurement :: record.tags.map renderTag := by
    refine split_intercalate (marks ',' false) (by decide) (by decide)
      (List.cons_ne_nil _ _) ?_
    refine List.forall_mem_cons.mpr ⟨whole_renderName separator_comma _, fun piece member => ?_⟩
    obtain ⟨tag, -, rfl⟩ := List.mem_map.mp member
    have equals : Whole (marks ',' false) ['='] := (turns_singleton (by decide)).whole Even.zero
    exact (whole_renderName separator_comma tag.1).append
      (equals.append (whole_renderName separator_comma tag.2))
  have tags : (record.tags.map renderTag).mapM parseTag = .ok record.tags := by
    rw [mapM_eq_ok, List.forall₂_map_left_iff, List.forall₂_same]
    exact fun tag member => parseTag_renderTag (renderable.tags tag member).1
  rw [parseMeasurementAndTags, pieces]
  simp only [List.headD_cons, List.tail_cons, unescape_renderName, bind_eq_ok, tags,
    require_eq_ok]
  exact ⟨(), renderable.measured, _, rfl, rfl⟩

theorem parseField_renderField (held : field.1 ≠ []) (even : Even (field.1.count '"'))
    (plain : field.2.Plain) :
    parseField parseFloat (renderField renderFloat field) = .ok field := by
  have key : Whole (marks '=' true) (renderName field.1) :=
    (turns_renderName separator_equals field.1).whole even
  have value : Whole (marks '=' true) (renderValue renderFloat field.2) :=
    whole_renderValue separator_equals plain
  have pieces : splitUnescaped (renderField renderFloat field) '=' true =
      [renderName field.1, renderValue renderFloat field.2] := by
    have cut := split_append_delim (marks '=' true) (by decide) (by decide) key
      (renderValue renderFloat field.2)
    rw [split_of_carry value] at cut
    exact cut
  rw [parseField, pieces]
  simp only [ne_eq, renderName_ne_nil held, renderValue_ne_nil plain, not_false_eq_true, and_self,
    if_true, parseFieldValue_renderValue plain, Except.map, unescape_renderName]

theorem parseFields_renderFieldset {fields : List (Text × FieldValue F64)} (held : fields ≠ [])
    (each : ∀ field ∈ fields, field.1 ≠ [] ∧ Even (field.1.count '"') ∧ field.2.Plain) :
    parseFields parseFloat (renderFieldset renderFloat fields) = .ok fields := by
  have pieces : splitUnescaped (renderFieldset renderFloat fields) ',' true =
      fields.map (renderField renderFloat) := by
    refine split_intercalate (marks ',' true) (by decide) (by decide)
      (by simpa using held) fun piece member => ?_
    obtain ⟨field, inside, rfl⟩ := List.mem_map.mp member
    obtain ⟨-, even, plain⟩ := each field inside
    exact whole_renderField separator_comma (by decide) even plain
  have read : (fields.map (renderField renderFloat)).mapM (parseField parseFloat) =
      .ok fields := by
    rw [mapM_eq_ok, List.forall₂_map_left_iff, List.forall₂_same]
    intro field inside
    obtain ⟨named, even, plain⟩ := each field inside
    exact parseField_renderField named even plain
  rw [parseFields, pieces]
  simp only [bind_eq_ok, read, require_eq_ok]
  exact ⟨fields, rfl, (), held, rfl⟩

theorem parseTimestamp_renderI64 (timestamp : Int64) :
    parseTimestamp (renderI64 timestamp) = .ok (some timestamp) := by
  have held : renderI64 timestamp ≠ [] := by
    unfold renderI64
    cases timestamp.toInt with
    | ofNat magnitude => exact Nat.toDigits_ne_nil
    | negSucc below => exact List.cons_ne_nil _ _
  rw [parseTimestamp, if_neg held, parseI64_renderI64]

/-- The tags together, and each field key, leave no quotation open. -/
structure LineRecord.Quoted (record : LineRecord F64) : Prop where
  tagset : Even (record.describeSeries.count '"')
  keys : ∀ field ∈ record.fields, Even (field.1.count '"')

theorem parseParts_eq_ok {fieldset timestamp : Text} :
    parseParts parseFloat tagset fieldset timestamp = .ok record ↔
      parseMeasurementAndTags tagset = .ok (record.measurement, record.tags) ∧
        parseFields parseFloat fieldset = .ok record.fields ∧
          parseTimestamp timestamp = .ok record.timestamp := by
  simp only [parseParts, bind_eq_ok, pure_eq_ok]
  constructor
  · rintro ⟨⟨measurement, tags⟩, first, fields, second, timestamp, third, rfl⟩
    exact ⟨first, second, third⟩
  · rintro ⟨first, second, third⟩
    exact ⟨_, first, _, second, _, third, rfl⟩

theorem parseLine_renderLine (renderable : record.Renderable) (closed : record.Quoted) :
    parseLine parseFloat (renderLine renderFloat record) = .ok record := by
  have tagset : Whole (marks ' ' true) (renderTagset record) :=
    (turns_renderTagset record).whole closed.tagset
  have fieldset : Whole (marks ' ' true) (renderFieldset renderFloat record.fields) :=
    whole_renderFieldset closed.keys fun field inside => (renderable.fields field inside).2.2
  have pieces : splitUnescaped (renderLine renderFloat record) ' ' true =
      renderTagset record :: renderFieldset renderFloat record.fields ::
        record.timestamp.toList.map renderI64 := by
    refine split_intercalate (marks ' ' true) (by decide) (by decide)
      (List.cons_ne_nil _ _) ?_
    simp only [List.forall_mem_cons, List.forall_mem_map]
    exact ⟨tagset, fieldset, fun timestamp _ =>
      whole_of_ordinary separator_space (ordinary_renderI64 timestamp)⟩
  have first := parseMeasurementAndTags_renderTagset renderable
  have second : parseFields parseFloat (renderFieldset renderFloat record.fields) =
      .ok record.fields :=
    parseFields_renderFieldset renderable.held fun field inside =>
      ⟨(renderable.fields field inside).1, closed.keys field inside,
        (renderable.fields field inside).2.2⟩
  rw [parseLine, pieces]
  cases stamped : record.timestamp with
  | none => exact parseParts_eq_ok.mpr ⟨first, second, stamped ▸ rfl⟩
  | some timestamp =>
      exact parseParts_eq_ok.mpr ⟨first, second, stamped ▸ parseTimestamp_renderI64 timestamp⟩

theorem unescape_of_parseTag {pair : Text} (parsed : parseTag pair = .ok tag) :
    unescape pair = tag.1 ++ '=' :: tag.2 := by
  unfold parseTag at parsed
  split at parsed
  · rename_i key value pieces
    split at parsed
    · obtain rfl := Except.ok.inj parsed
      have read := unescape_split pieces
      rw [List.flatMap_singleton] at read
      exact read
    · cases parsed
  · cases parsed

theorem unescape_of_parseMeasurementAndTags {measurement : Text} {tags : List (Text × Text)}
    (parsed : parseMeasurementAndTags tagset = .ok (measurement, tags)) :
    unescape tagset = measurement ++ tags.flatMap fun tag => ',' :: tag.1 ++ '=' :: tag.2 := by
  obtain ⟨first, behind, pieces⟩ : ∃ first behind, splitUnescaped tagset ',' false =
      first :: behind := ⟨_, _, split_eq _ _⟩
  have read := unescape_split pieces
  rw [parseMeasurementAndTags, pieces] at parsed
  simp only [List.headD_cons, List.tail_cons, bind_eq_ok, pure_eq_ok] at parsed
  obtain ⟨⟨⟩, -, found, each, same⟩ := parsed
  obtain ⟨rfl, rfl⟩ := Prod.mk.inj same
  rw [mapM_eq_ok] at each
  have pairs : behind.flatMap (',' :: unescape ·) =
      found.flatMap fun tag => ',' :: tag.1 ++ '=' :: tag.2 := by
    clear pieces read same
    induction each with
    | nil => rfl
    | cons parsed later ih =>
        rw [List.flatMap_cons, List.flatMap_cons, ih, unescape_of_parseTag parsed]
        rfl
  rw [← pairs]
  exact read

theorem parts_of_parseLine {line : Text} (parsed : parseLine parseFloat line = .ok record) :
    ∃ tagset fieldset behind, splitUnescaped line ' ' true = tagset :: fieldset :: behind ∧
      parseMeasurementAndTags tagset = .ok (record.measurement, record.tags) ∧
        parseFields parseFloat fieldset = .ok record.fields := by
  unfold parseLine at parsed
  split at parsed
  · rename_i pieces
    obtain ⟨first, second, -⟩ := parseParts_eq_ok.mp parsed
    exact ⟨_, _, _, pieces, first, second⟩
  · rename_i pieces
    obtain ⟨first, second, -⟩ := parseParts_eq_ok.mp parsed
    exact ⟨_, _, _, pieces, first, second⟩
  · cases parsed

theorem unescape_append_ne {respectQuotes : Bool} {piece : Text} {next : Mode}
    (carried : carry (marks delim respectQuotes) .clear piece = some next)
    (closed : next.escaped = false) {char : Char} (plain : char ≠ '\\') (more : Text) :
    unescape (piece ++ char :: more) ≠ unescape piece := by
  have read : unescape (piece ++ char :: more) = unescape piece ++ unescape (char :: more) :=
    unescape_append (marks delim respectQuotes) .clear carried closed
      (char :: more)
  have longer : unescape (char :: more) = char :: unescape more := if_neg plain
  rw [read, longer]
  exact fun same => List.cons_ne_nil _ _ (List.append_right_eq_self.mp same)

theorem carry_open {other : Char} {piece : Text} (separator : Separator other)
    (open_ : carry (marks delim true) .clear piece = some ⟨false, true⟩) :
    carry (marks delim true) .clear (piece ++ [other]) = some ⟨false, true⟩ := by
  rw [carry_append_of_carry open_]
  exact carry_quoted (marks delim true) (separator.plain true) (separator.unquoted true)

theorem even_tagset_of_parseLine (renderable : record.Renderable)
    (parsed : parseLine parseFloat (renderLine renderFloat record) = .ok record) :
    Even (record.describeSeries.count '"') := by
  by_contra odd
  have open_ : carry (marks ' ' true) .clear (renderTagset record) = some ⟨false, true⟩ :=
    (turns_renderTagset record false).trans (congrArg some (turned_odd false odd))
  obtain ⟨tagset, fieldset, behind, pieces, first, -⟩ := parts_of_parseLine parsed
  have line : renderLine renderFloat record = (renderTagset record ++ [' ']) ++
      [' '].intercalate (renderFieldset renderFloat record.fields ::
        record.timestamp.toList.map renderI64) := by
    rw [renderLine, List.intercalate_cons_cons]
  rw [line, splitUnescaped,
    split_append_of_carry (carry_open separator_space open_)] at pieces
  obtain ⟨rfl, -⟩ := List.cons.inj pieces
  rw [List.append_assoc, List.singleton_append] at first
  have whole := unescape_of_parseMeasurementAndTags first
  rw [← unescape_of_parseMeasurementAndTags (parseMeasurementAndTags_renderTagset renderable)]
    at whole
  exact unescape_append_ne open_ rfl (by decide) _ whole

theorem parseField_open {key : Text} (odd : ¬Even (key.count '"')) (more : Text)
    (parsed : parseField parseFloat (renderName key ++ '=' :: more) = .ok field) :
    field.1 ≠ key := by
  have open_ : carry (marks '=' true) .clear (renderName key) = some ⟨false, true⟩ :=
    (turns_renderName separator_equals key false).trans (congrArg some (turned_odd false odd))
  have pieces := split_append_of_carry (carry_open separator_equals open_) more
  rw [List.append_assoc, List.singleton_append] at pieces
  rw [parseField, splitUnescaped, pieces] at parsed
  split at parsed
  · rename_i name value same
    obtain ⟨rfl, -⟩ := List.cons.inj same
    split at parsed
    · cases read : parseFieldValue parseFloat value with
      | error message =>
          rw [read] at parsed
          cases parsed
      | ok held =>
          rw [read] at parsed
          obtain rfl := Except.ok.inj parsed
          have longer : unescape (renderName key ++ '=' ::
              (splitFrom (marks '=' true) ⟨false, true⟩ more).1) ≠ unescape (renderName key) :=
            unescape_append_ne open_ rfl (by decide) _
          rw [unescape_renderName] at longer
          rw [List.append_assoc, List.singleton_append]
          exact longer
    · cases parsed
  · cases parsed

section OpenKey

variable {before : List (Text × FieldValue F64)} {key : Text}
variable {after : List (Text × FieldValue F64)}

/-- The fields in front of another one, as they are rendered. -/
def renderFront (renderFloat : F64 → Text) (before : List (Text × FieldValue F64)) : Text :=
  (before.map (renderField renderFloat)).flatMap (· ++ [','])

theorem carry_open_key (odd : ¬Even (key.count '"')) (separator : Separator delim) :
    carry (marks delim true) .clear (renderName key) = some ⟨false, true⟩ :=
  (turns_renderName separator key false).trans (congrArg some (turned_odd false odd))

theorem whole_renderFront
    (each : ∀ field ∈ before, Even (field.1.count '"') ∧ field.2.Plain) :
    Whole (marks ' ' true) (renderFront renderFloat before) := by
  refine Whole.flatMap fun piece member => ?_
  obtain ⟨field, inside, rfl⟩ := List.mem_map.mp member
  obtain ⟨even, plain⟩ := each field inside
  exact (whole_renderField separator_space (by decide) even plain).append
    ((turns_singleton (by decide)).whole Even.zero)

theorem parseFields_open (each : ∀ field ∈ before, Even (field.1.count '"') ∧ field.2.Plain)
    (odd : ¬Even (key.count '"')) {more : Text} :
    parseFields parseFloat (renderFront renderFloat before ++ (renderName key ++ '=' :: more)) ≠
      .ok (before ++ (key, value) :: after) := by
  intro parsed
  have pieces : ∀ piece ∈ before.map (renderField renderFloat), Whole (marks ',' true) piece := by
    intro piece member
    obtain ⟨field, inside, rfl⟩ := List.mem_map.mp member
    exact whole_renderField separator_comma (by decide) (each field inside).1 (each field inside).2
  have open_ : carry (marks ',' true) .clear (renderName key ++ ['=']) = some ⟨false, true⟩ :=
    carry_open separator_equals (carry_open_key odd separator_comma)
  have last := split_append_of_carry open_ more
  rw [List.append_assoc, List.singleton_append] at last
  have cut : splitUnescaped (renderFront renderFloat before ++ (renderName key ++ '=' :: more))
      ',' true = _ :=
    (split_joined (marks ',' true) (by decide) (by decide) pieces _).trans
      (congrArg (_ ++ ·) last)
  simp only [parseFields, cut, bind_eq_ok, pure_eq_ok, mapM_eq_ok] at parsed
  obtain ⟨fields, read, -, -, rfl⟩ := parsed
  have tail := List.forall₂_drop_append _ _ _ read
  rw [← List.length_map (renderField renderFloat), List.drop_left] at tail
  obtain ⟨parsed, -⟩ := List.forall₂_cons.mp tail
  rw [List.append_assoc, List.singleton_append] at parsed
  exact parseField_open odd _ parsed rfl

variable (renderFloat) in
theorem fieldset_open (tagset : Even (record.describeSeries.count '"'))
    (fields : record.fields = before ++ (key, value) :: after)
    (each : ∀ field ∈ before, Even (field.1.count '"') ∧ field.2.Plain)
    (odd : ¬Even (key.count '"')) :
    ∃ more behind, splitUnescaped (renderLine renderFloat record) ' ' true =
      renderTagset record ::
        (renderFront renderFloat before ++ (renderName key ++ '=' :: more)) :: behind := by
  obtain ⟨rest, line⟩ : ∃ rest, renderLine renderFloat record = renderTagset record ++ ' ' ::
      ((renderFront renderFloat before ++ (renderName key ++ ['='])) ++ rest) := by
    rw [renderLine, intercalate_eq, List.flatMap_cons, renderFieldset, fields, List.map_append,
      List.map_cons, intercalate_append, intercalate_eq, renderField, renderFront]
    simp only [List.append_assoc, List.cons_append, List.nil_append]
    exact ⟨_, rfl⟩
  have carried : carry (marks ' ' true) .clear
      (renderFront renderFloat before ++ (renderName key ++ ['='])) = some ⟨false, true⟩ := by
    rw [carry_append_of_carry (whole_renderFront each)]
    exact carry_open separator_equals (carry_open_key odd separator_space)
  have cut := split_append_delim (marks ' ' true) (by decide) (by decide)
    ((turns_renderTagset record).whole tagset)
    ((renderFront renderFloat before ++ (renderName key ++ ['='])) ++ rest)
  rw [split_append_of_carry carried] at cut
  refine ⟨(splitFrom (marks ' ' true) ⟨false, true⟩ rest).1,
    (splitFrom (marks ' ' true) ⟨false, true⟩ rest).2, ?_⟩
  rw [line]
  refine cut.trans ?_
  rw [List.append_assoc, List.append_assoc, List.singleton_append]

end OpenKey

theorem even_keys_of_parseLine (renderable : record.Renderable)
    (tagset : Even (record.describeSeries.count '"'))
    (parsed : parseLine parseFloat (renderLine renderFloat record) = .ok record) :
    ∀ field ∈ record.fields, Even (field.1.count '"') := by
  by_contra some_odd
  -- The fields before the first odd key are read as they are.
  obtain ⟨before, key, value, after, fields, even, odd⟩ :
      ∃ before key value after, record.fields = before ++ (key, value) :: after ∧
        (∀ field ∈ before, Even (field.1.count '"')) ∧ ¬Even (key.count '"') := by
    push Not at some_odd
    obtain ⟨field, member, odd⟩ := some_odd
    cases found : record.fields.find? fun field => ¬Even (field.1.count '"') with
    | none =>
        have none_odd := List.find?_eq_none.mp found field member
        exact absurd odd (by simpa using none_odd)
    | some first =>
        obtain ⟨first_odd, before, after, shape, even⟩ := List.find?_eq_some_iff_append.mp found
        exact ⟨before, first.1, first.2, after, shape, fun field inside => by
          simpa using even field inside, by simpa using first_odd⟩
  have each : ∀ field ∈ before, Even (field.1.count '"') ∧ field.2.Plain := fun field inside =>
    ⟨even field inside,
      (renderable.fields field (fields ▸ List.mem_append_left _ inside)).2.2⟩
  obtain ⟨taken, fieldset, behind, parts, -, read⟩ := parts_of_parseLine parsed
  obtain ⟨more, later, cut⟩ :=
    fieldset_open renderFloat tagset fields each odd
  obtain ⟨-, same⟩ := List.cons.inj (parts.symm.trans cut)
  obtain ⟨rfl, -⟩ := List.cons.inj same
  rw [fields] at read
  exact parseFields_open each odd read

theorem parseLine_renderLine_iff (renderable : record.Renderable) :
    parseLine parseFloat (renderLine renderFloat record) = .ok record ↔ record.Quoted := by
  constructor
  · intro parsed
    have tagset := even_tagset_of_parseLine renderable parsed
    exact ⟨tagset, even_keys_of_parseLine renderable tagset parsed⟩
  · exact parseLine_renderLine renderable

/-- A line which is no record of its own: a comment. -/
def IsComment (line : Text) : Prop := (trimStart line).head? = some '#'

/-- A record which the grammar can carry. -/
structure LineRecord.Legible (renderFloat : F64 → Text) (record : LineRecord F64) : Prop
    extends record.Quoted where
  no_comment : ¬IsComment (renderLine renderFloat record)

theorem parseLines_eq_ok {idx : Nat} {lines : List Text} {records : List (LineRecord F64)} :
    (parseLines parseFloat idx lines).map (·.map Prod.snd) = .ok records ↔
      List.Forall₂ (fun line record => parseLine parseFloat line = .ok record)
        ((lines.map trimEnd).filter fun line => !isBlankOrComment line) records := by
  induction lines generalizing idx records with
  | nil =>
      simp only [parseLines, List.map_nil, List.filter_nil, List.forall₂_nil_left_iff]
      exact ⟨fun parsed => (Except.ok.inj parsed).symm, fun empty => empty ▸ rfl⟩
  | cons raw lines ih =>
      rw [parseLines]
      by_cases skipped : isBlankOrComment (trimEnd raw) = true
      · simp only [skipped, if_true, List.map_cons, Bool.not_true, Bool.false_eq_true,
          not_false_eq_true, List.filter_cons_of_neg]
        exact ih
      simp only [skipped, if_false, Bool.false_eq_true, List.map_cons, Bool.not_false,
        List.filter_cons_of_pos, List.forall₂_cons_left_iff]
      cases parsed : parseLine parseFloat (trimEnd raw) with
      | error message =>
          constructor
          · intro failed
            cases failed
          · rintro ⟨record, later, ⟨⟩, -⟩
      | ok record =>
          simp only [← @ih (idx + 1)]
          cases parseLines parseFloat (idx + 1) lines with
          | error failure =>
              constructor
              · intro failed
                cases failed
              · rintro ⟨_, _, -, failed, -⟩
                cases failed
          | ok found =>
              constructor
              · intro done
                exact ⟨record, found.map Prod.snd, rfl, rfl, (Except.ok.inj done).symm⟩
              · rintro ⟨_, _, ⟨⟩, done, rfl⟩
                rw [← Except.ok.inj done]
                rfl

/-- A text which ends in another character than a carriage return. -/
def EndsPlain (text : Text) : Prop := ∃ front char, text = front ++ [char] ∧ char ≠ '\r'

theorem EndsPlain.append (ends : EndsPlain text) (front : Text) : EndsPlain (front ++ text) := by
  obtain ⟨own, char, rfl, plain⟩ := ends
  exact ⟨front ++ own, char, (List.append_assoc ..).symm, plain⟩

theorem EndsPlain.trimEnd_eq (ends : EndsPlain text) : trimEnd text = text := by
  obtain ⟨front, char, rfl, plain⟩ := ends
  exact List.rdropWhile_concat_neg _ _ _ (by simpa using plain)

theorem EndsPlain.intercalate {last : Text} (ends : EndsPlain last) (pieces : List Text) :
    EndsPlain ([delim].intercalate (pieces ++ [last])) := by
  rw [intercalate_append, List.intercalate_singleton]
  exact ends.append _

theorem endsPlain_toDigits (value : Nat) : EndsPlain (Nat.toDigits 10 value) := by
  obtain ⟨front, char, shape⟩ :=
    (List.eq_nil_or_concat' (Nat.toDigits 10 value)).resolve_left Nat.toDigits_ne_nil
  refine ⟨front, char, shape, ?_⟩
  rintro rfl
  exact absurd (Nat.isDigit_of_mem_toDigits (b := 10) (n := value) (c := '\r') (by decide)
    (by decide) (by simp [shape])) (by decide)

theorem endsPlain_renderI64 (value : Int64) : EndsPlain (renderI64 value) := by
  unfold renderI64
  cases value.toInt with
  | ofNat magnitude => exact endsPlain_toDigits magnitude
  | negSucc below => exact (endsPlain_toDigits (below + 1)).append ['-']

theorem endsPlain_renderValue (plain : value.Plain) :
    EndsPlain (renderValue renderFloat value) := by
  cases value with
  | float value => exact plain.elim
  | integer value => exact ⟨_, 'i', rfl, by decide⟩
  | unsigned value => exact ⟨_, 'u', rfl, by decide⟩
  | boolean value =>
      cases value with
      | true => exact ⟨['t', 'r', 'u'], 'e', rfl, by decide⟩
      | false => exact ⟨['f', 'a', 'l', 's'], 'e', rfl, by decide⟩
  | str text => exact ⟨_, '"', rfl, by decide⟩

theorem endsPlain_renderLine (renderable : record.Renderable) :
    EndsPlain (renderLine renderFloat record) := by
  obtain ⟨before, last, fields⟩ :=
    (List.eq_nil_or_concat' record.fields).resolve_left renderable.held
  have value : EndsPlain (renderFieldset renderFloat record.fields) := by
    rw [renderFieldset, fields, List.map_append]
    have plain := (renderable.fields last (by simp [fields])).2.2
    exact (((endsPlain_renderValue plain).append ['=']).append _).intercalate _
  rw [renderLine]
  cases record.timestamp with
  | none => exact value.intercalate [renderTagset record]
  | some timestamp =>
      exact (endsPlain_renderI64 timestamp).intercalate
        [renderTagset record, renderFieldset renderFloat record.fields]

theorem noFeed_of_ordinary (ordinary : ∀ char ∈ text, Ordinary char) : '\n' ∉ text :=
  fun feed => ordinary _ feed (by decide)

theorem noFeed_renderName {name : Text} (line : '\n' ∉ name) : '\n' ∉ renderName name := by
  intro feed
  rcases mem_protect feed with other | inside
  · exact absurd other (by decide)
  · exact line inside

theorem noFeed_renderValue (plain : value.Plain) : '\n' ∉ renderValue renderFloat value := by
  cases value with
  | float value => exact plain.elim
  | integer value =>
      intro feed
      rcases List.mem_append.mp feed with number | suffix
      · exact noFeed_of_ordinary (ordinary_renderI64 value) number
      · exact absurd suffix (by decide)
  | unsigned value =>
      intro feed
      rcases List.mem_append.mp feed with number | suffix
      · exact noFeed_of_ordinary (ordinary_toDigits _) number
      · exact absurd suffix (by decide)
  | boolean value =>
      cases value with
      | true => exact (by decide : '\n' ∉ ['t', 'r', 'u', 'e'])
      | false => exact (by decide : '\n' ∉ ['f', 'a', 'l', 's', 'e'])
  | str text =>
      intro feed
      rcases List.mem_append.mp feed with front | quote
      · rcases List.mem_cons.mp front with quote | inside
        · exact absurd quote (by decide)
        rcases mem_protect inside with other | inside
        · exact absurd other (by decide)
        · exact plain inside
      · exact absurd quote (by decide)

theorem noFeed_pair {left right : Text} (own : '\n' ∉ left) (other : '\n' ∉ right) :
    '\n' ∉ left ++ '=' :: right := by
  simp [own, other]

theorem noFeed_intercalate (plain : delim ≠ '\n') {pieces : List Text}
    (each : ∀ piece ∈ pieces, '\n' ∉ piece) : '\n' ∉ [delim].intercalate pieces := by
  intro feed
  rcases mem_intercalate feed with same | ⟨piece, member, inside⟩
  · exact plain same.symm
  · exact each piece member inside

theorem noFeed_renderLine (renderable : record.Renderable) :
    '\n' ∉ renderLine renderFloat record := by
  refine noFeed_intercalate (by decide) ?_
  refine List.forall_mem_cons.mpr ⟨?_, List.forall_mem_cons.mpr ⟨?_, ?_⟩⟩
  · refine noFeed_intercalate (by decide) (List.forall_mem_cons.mpr
      ⟨noFeed_renderName renderable.measurement_line, fun piece member => ?_⟩)
    obtain ⟨tag, inside, rfl⟩ := List.mem_map.mp member
    obtain ⟨-, key, value⟩ := renderable.tags tag inside
    exact noFeed_pair (noFeed_renderName key) (noFeed_renderName value)
  · refine noFeed_intercalate (by decide) fun piece member => ?_
    obtain ⟨field, inside, rfl⟩ := List.mem_map.mp member
    obtain ⟨-, key, plain⟩ := renderable.fields field inside
    exact noFeed_pair (noFeed_renderName key) (noFeed_renderValue plain)
  · intro piece member
    obtain ⟨timestamp, -, rfl⟩ := List.mem_map.mp member
    exact noFeed_of_ordinary (ordinary_renderI64 timestamp)

theorem strLinesFrom_append {front text : Text} (line : '\n' ∉ text) (later : Text) :
    strLinesFrom front (text ++ later) = strLinesFrom (front ++ text) later := by
  induction text generalizing front with
  | nil => rw [List.nil_append, List.append_nil]
  | cons char text ih =>
      obtain ⟨other, rest⟩ := not_or.mp (List.mem_cons.not.mp line)
      rw [List.cons_append, strLinesFrom.eq_3 _ _ _ (fun same => other same.symm), ih rest,
        List.append_assoc, List.singleton_append]

theorem strLines_cons (line : '\n' ∉ text) (ends : EndsPlain text) (later : Text) :
    strLines (text ++ '\n' :: later) = text :: strLines later := by
  obtain ⟨front, char, rfl, plain⟩ := ends
  have last : ¬(front ++ [char]).getLast? = some '\r' := by
    rw [List.getLast?_concat, Option.some.injEq]
    exact plain
  rw [strLines, strLinesFrom_append line, List.nil_append, strLinesFrom, if_neg last, strLines]

theorem strLines_last (line : '\n' ∉ text) (ends : EndsPlain text) : strLines text = [text] := by
  obtain ⟨front, char, rfl, -⟩ := ends
  have only := @strLinesFrom_append [] _ line []
  rw [List.append_nil, List.nil_append, strLinesFrom, if_neg (by simp)] at only
  exact only

theorem strLines_renderDocument {records : List (LineRecord F64)} (closed : Bool)
    (renderable : ∀ record ∈ records, record.Renderable) :
    strLines (renderDocument renderFloat closed records) =
      records.map (renderLine renderFloat) := by
  induction records with
  | nil => rfl
  | cons record records ih =>
      obtain ⟨own, others⟩ := List.forall_mem_cons.mp renderable
      have line : '\n' ∉ renderLine renderFloat record := noFeed_renderLine own
      have ends : EndsPlain (renderLine renderFloat record) := endsPlain_renderLine own
      cases records with
      | nil =>
          cases closed with
          | false =>
              rw [renderDocument, if_neg Bool.false_ne_true, List.append_nil,
                strLines_last line ends]
              rfl
          | true =>
              rw [renderDocument, if_pos rfl, strLines_cons line ends]
              rfl
      | cons next records =>
          rw [renderDocument, strLines_cons line ends, ih others]
          rfl
          exact List.cons_ne_nil _ _

variable (renderFloat) in
theorem isBlankOrComment_renderLine (renderable : record.Renderable) :
    isBlankOrComment (renderLine renderFloat record) = true ↔
      IsComment (renderLine renderFloat record) := by
  have held : trimStart (renderLine renderFloat record) ≠ [] := by
    intro blank
    have white := List.dropWhile_eq_nil_iff.mp blank
    obtain ⟨field, fields, shape⟩ := List.exists_cons_of_ne_nil renderable.held
    have equals : '=' ∈ renderLine renderFloat record := by
      rw [renderLine, intercalate_eq, List.flatMap_cons, renderFieldset, shape, List.map_cons,
        intercalate_eq, renderField]
      simp
    exact absurd (white '=' equals) (by decide)
  unfold isBlankOrComment IsComment
  cases trimmed : trimStart (renderLine renderFloat record) with
  | nil => exact absurd trimmed held
  | cons char text => simp

theorem forall₂_filter_map {Item Line : Type*} {render : Item → Line} {kept : Line → Bool}
    {reads : Line → Item → Prop} {items : List Item} :
    List.Forall₂ reads ((items.map render).filter kept) items ↔
      ∀ item ∈ items, kept (render item) = true ∧ reads (render item) item := by
  constructor
  · intro read
    have whole : (items.map render).filter kept = items.map render := by
      refine List.filter_eq_self.mpr (List.length_filter_eq_length_iff.mp ?_)
      rw [read.length_eq, List.length_map]
    rw [whole, List.forall₂_map_left_iff, List.forall₂_same] at read
    exact fun item member => ⟨List.filter_eq_self.mp whole _ (List.mem_map_of_mem member),
      read item member⟩
  · intro each
    have whole : (items.map render).filter kept = items.map render := by
      refine List.filter_eq_self.mpr fun line member => ?_
      obtain ⟨item, inside, rfl⟩ := List.mem_map.mp member
      exact (each item inside).1
    rw [whole, List.forall₂_map_left_iff, List.forall₂_same]
    exact fun item member => (each item member).2

/-- A document of rendered records parses to them exactly when each of them is legible. -/
theorem parse_renderDocument_iff {records : List (LineRecord F64)} (closed : Bool)
    (renderable : ∀ record ∈ records, record.Renderable) :
    parse parseFloat (renderDocument renderFloat closed records) = .ok records ↔
      ∀ record ∈ records, record.Legible renderFloat := by
  have trimmed : (strLines (renderDocument renderFloat closed records)).map trimEnd =
      records.map (renderLine renderFloat) := by
    rw [strLines_renderDocument closed renderable, List.map_map]
    exact List.map_congr_left fun record member =>
      (endsPlain_renderLine (renderable record member)).trimEnd_eq
  rw [parse, parseIndexed, parseLines_eq_ok, trimmed, forall₂_filter_map]
  refine forall₂_congr fun record member => ?_
  have blank := isBlankOrComment_renderLine renderFloat (renderable record member)
  rw [parseLine_renderLine_iff (renderable record member), Bool.not_eq_true', ← Bool.not_eq_true,
    blank]
  exact ⟨fun ⟨no_comment, closed⟩ => ⟨closed, no_comment⟩,
    fun legible => ⟨legible.no_comment, legible.toQuoted⟩⟩

theorem parse_renderDocument_of_two :
    parse (fun _ : Text => (none : Option Unit)) (renderDocument (fun _ : Unit => ['0']) true
        [⟨['"', 'c', ' ', '"'], [(['#'], ['a', '"', ',', '"'])],
            [(['n', '='], .integer (-5)), (['s'], .str ['\\', ' ', '"'])], some 7⟩,
          ⟨['m', '\\'], [], [(['b'], .boolean true), (['u'], .unsigned 12)], none⟩]) =
      .ok
        [⟨['"', 'c', ' ', '"'], [(['#'], ['a', '"', ',', '"'])],
            [(['n', '='], .integer (-5)), (['s'], .str ['\\', ' ', '"'])], some 7⟩,
          ⟨['m', '\\'], [], [(['b'], .boolean true), (['u'], .unsigned 12)], none⟩] := by
  refine (parse_renderDocument_iff true ?_).mpr ?_
  · refine List.forall_mem_cons.mpr ⟨⟨by decide, by decide, by decide, by decide, ?_⟩,
      List.forall_mem_singleton.mpr ⟨by decide, by decide, by decide, by decide, ?_⟩⟩ <;>
        simp [FieldValue.Plain]
  · refine List.forall_mem_cons.mpr ⟨⟨⟨by decide, by decide⟩, ?_⟩,
      List.forall_mem_singleton.mpr ⟨⟨by decide, by decide⟩, ?_⟩⟩ <;> (unfold IsComment; decide)

/-- A quote in a tag value keeps the line from being split into its parts. -/
theorem quoted_tag_is_not_read :
    ¬∀ records : List (LineRecord Unit), (∀ record ∈ records, record.Renderable) →
      parse (fun _ => none) (renderDocument (fun _ : Unit => ['0']) false records) =
        .ok records := by
  intro reads
  have read := reads [⟨['m'], [(['t'], ['"'])], [(['n'], .integer 1)], none⟩]
    (List.forall_mem_singleton.mpr
      ⟨by decide, by decide, by decide, by decide, by simp [FieldValue.Plain]⟩)
  exact absurd read (by decide)

end WeftDb.LineProtocol
