import WeftDb.LineProtocol.Grammar

/-!
# Rendering records

A name escapes its commas, spaces, equals signs and backslashes, a string value its quotes and
backslashes between two quotes.  So no delimiter splits a name, and a value is one piece outside
quotations; but a quote in a name opens a quotation wherever quotations are respected.
-/

namespace WeftDb.LineProtocol

open EscapedText

/-- The characters which a name escapes. -/
def Structural (char : Char) : Prop := char ∈ [',', ' ', '=', '\\']

instance : DecidablePred Structural := fun char => inferInstanceAs (Decidable (char ∈ _))

/-- The characters which a string value escapes. -/
def Quoting (char : Char) : Prop := char ∈ ['"', '\\']

instance : DecidablePred Quoting := fun char => inferInstanceAs (Decidable (char ∈ _))

def renderName (name : Text) : Text := protect '\\' Structural name

def renderI64 (value : Int64) : Text :=
  match value.toInt with
  | .ofNat magnitude => Nat.toDigits 10 magnitude
  | .negSucc below => '-' :: Nat.toDigits 10 (below + 1)

section Values

variable {F64 : Type} (renderFloat : F64 → Text)

def renderValue : FieldValue F64 → Text
  | .float value => renderFloat value
  | .integer value => renderI64 value ++ ['i']
  | .unsigned value => Nat.toDigits 10 value.toNat ++ ['u']
  | .boolean true => ['t', 'r', 'u', 'e']
  | .boolean false => ['f', 'a', 'l', 's', 'e']
  | .str text => '"' :: protect '\\' Quoting text ++ ['"']

def renderTag (tag : Text × Text) : Text := renderName tag.1 ++ '=' :: renderName tag.2

def renderTagset (record : LineRecord F64) : Text :=
  [','].intercalate (renderName record.measurement :: record.tags.map renderTag)

def renderField (field : Text × FieldValue F64) : Text :=
  renderName field.1 ++ '=' :: renderValue renderFloat field.2

def renderFieldset (fields : List (Text × FieldValue F64)) : Text :=
  [','].intercalate (fields.map (renderField renderFloat))

/-- One line of a document; without a timestamp it ends with the fields. -/
def renderLine (record : LineRecord F64) : Text :=
  [' '].intercalate (renderTagset record :: renderFieldset renderFloat record.fields ::
    record.timestamp.toList.map renderI64)

/-- The lines of some records, the last one closed or left open. -/
def renderDocument (closed : Bool) : List (LineRecord F64) → Text
  | [] => []
  | [record] => renderLine renderFloat record ++ if closed then ['\n'] else []
  | record :: records => renderLine renderFloat record ++ '\n' :: renderDocument closed records

end Values

/-- A value which is no float and has no line feed. -/
def FieldValue.Plain {F64 : Type} : FieldValue F64 → Prop
  | .float _ => False
  | .str text => '\n' ∉ text
  | _ => True

/-- A record within the grammar. -/
structure LineRecord.Renderable {F64 : Type} (record : LineRecord F64) : Prop where
  measured : record.measurement ≠ []
  measurement_line : '\n' ∉ record.measurement
  tags : ∀ tag ∈ record.tags, tag.1 ≠ [] ∧ '\n' ∉ tag.1 ∧ '\n' ∉ tag.2
  held : record.fields ≠ []
  fields : ∀ field ∈ record.fields, field.1 ≠ [] ∧ '\n' ∉ field.1 ∧ field.2.Plain

/-- The delimiters of the grammar. -/
def Separator (delim : Char) : Prop := delim ∈ [',', ' ', '=']

instance : DecidablePred Separator := fun char => inferInstanceAs (Decidable (char ∈ _))

variable {delim : Char}

theorem Separator.structural (separator : Separator delim) : Structural delim :=
  List.mem_append_left ['\\'] separator

theorem Separator.plain (separator : Separator delim) (respectQuotes : Bool) :
    (marks delim respectQuotes).delim ≠ (marks delim respectQuotes).escape := by
  rintro (rfl : delim = '\\')
  exact absurd separator (by decide)

theorem Separator.unquoted (separator : Separator delim) (respectQuotes : Bool) :
    (marks delim respectQuotes).delim ≠ (marks delim respectQuotes).quote := by
  rintro (rfl : delim = '"')
  exact absurd separator (by decide)

theorem separator_comma : Separator ',' := by decide

theorem separator_space : Separator ' ' := by decide

theorem separator_equals : Separator '=' := by decide

variable {delim : Char} {respectQuotes : Bool} {F64 : Type} {renderFloat : F64 → Text}

theorem unescape_renderName (name : Text) : unescape (renderName name) = name :=
  unescape_protect (by decide) name

theorem renderName_ne_nil {name : Text} (held : name ≠ []) : renderName name ≠ [] := by
  intro empty
  have read := unescape_renderName name
  rw [empty] at read
  exact held read.symm

theorem turns_renderName (separator : Separator delim) (name : Text) :
    Turns (marks delim respectQuotes) (renderName name) (quotes (marks delim respectQuotes) name) :=
  turns_protect (marks delim respectQuotes) Structural
    (show Structural '\\' by decide) separator.structural (show ¬Structural '"' by decide) name

theorem whole_renderName (separator : Separator delim) (name : Text) :
    Whole (marks delim false) (renderName name) :=
  (turns_renderName separator name).whole Even.zero

/-- A character without a role anywhere in a document. -/
def Ordinary (char : Char) : Prop := char ∉ [',', ' ', '=', '\\', '"', '\n']

instance : DecidablePred Ordinary := fun char => inferInstanceAs (Decidable (char ∉ _))

theorem ordinary_of_isDigit {char : Char} (digit : char.isDigit = true) : Ordinary char := by
  have reserved : ∀ char ∈ [',', ' ', '=', '\\', '"', '\n'], Char.isDigit char = false :=
    List.forall_iff_forall_mem.mp (by decide)
  intro member
  rw [reserved char member] at digit
  cases digit

theorem ordinary_toDigits (value : Nat) : ∀ char ∈ Nat.toDigits 10 value, Ordinary char :=
  fun _ member => ordinary_of_isDigit (Nat.isDigit_of_mem_toDigits (by decide) (by decide) member)

theorem ordinary_renderI64 (value : Int64) : ∀ char ∈ renderI64 value, Ordinary char := by
  unfold renderI64
  cases value.toInt with
  | ofNat magnitude => exact ordinary_toDigits magnitude
  | negSucc below =>
      exact List.forall_mem_cons.mpr ⟨by decide, ordinary_toDigits (below + 1)⟩

theorem whole_of_ordinary (separator : Separator delim) {text : Text}
    (ordinary : ∀ char ∈ text, Ordinary char) : Whole (marks delim respectQuotes) text := by
  refine carry_plain rfl fun char member => ⟨?_, ?_, ?_⟩
  · rintro rfl
    exact ordinary _ member (by simp [marks])
  · rintro rfl
    exact ordinary _ member (by simp [marks])
  · rintro rfl
    exact ordinary _ member (List.mem_append_left ['\\', '"', '\n'] separator)

theorem whole_renderValue (separator : Separator delim) {value : FieldValue F64}
    (plain : value.Plain) : Whole (marks delim true) (renderValue renderFloat value) := by
  cases value with
  | float value => exact plain.elim
  | integer value =>
      refine whole_of_ordinary separator fun char member => ?_
      rcases List.mem_append.mp member with member | member
      · exact ordinary_renderI64 value char member
      · rw [List.mem_singleton.mp member]
        decide
  | unsigned value =>
      refine whole_of_ordinary separator fun char member => ?_
      rcases List.mem_append.mp member with member | member
      · exact ordinary_toDigits _ char member
      · rw [List.mem_singleton.mp member]
        decide
  | boolean value =>
      cases value with
      | true =>
          exact whole_of_ordinary separator
            (List.forall_iff_forall_mem.mp (show ['t', 'r', 'u', 'e'].Forall Ordinary by decide))
      | false =>
          exact whole_of_ordinary separator
            (List.forall_iff_forall_mem.mp (show ['f', 'a', 'l', 's', 'e'].Forall Ordinary by decide))
  | str text =>
      have opened : advance (marks delim true) .clear '"' = some ⟨false, true⟩ := rfl
      have inside : carry (marks delim true) ⟨false, true⟩ (protect '\\' Quoting text) =
          some ⟨false, true⟩ :=
        carry_protect_quoted (marks delim true) Quoting
          (show Quoting '\\' by decide) (show Quoting '"' by decide) text
      have closed : carry (marks delim true) ⟨false, true⟩ ['"'] = some .clear := rfl
      rw [Whole, renderValue, List.cons_append, carry, opened, Option.bind_some,
        carry_append_of_carry inside, closed]

theorem turns_renderTagset (record : LineRecord F64) :
    Turns (marks ' ' true) (renderTagset record) (record.describeSeries.count '"') := by
  have name (name : Text) : Turns (marks ' ' true) (renderName name) (name.count '"') :=
    turns_renderName separator_space name
  have comma : Turns (marks ' ' true) [','] 0 := turns_singleton (by decide)
  have equals : Turns (marks ' ' true) ['='] 0 := turns_singleton (by decide)
  have tags (tags : List (Text × Text)) :
      Turns (marks ' ' true) ((tags.map renderTag).flatMap (',' :: ·))
        ((tags.flatMap fun tag => ',' :: tag.1 ++ '=' :: tag.2).count '"') := by
    induction tags with
    | nil => exact fun inQuote => by simp [carry, turned]
    | cons tag tags ih =>
        have all := (comma.append ((name tag.1).append (equals.append (name tag.2)))).append ih
        rw [List.map_cons, List.flatMap_cons, List.flatMap_cons, List.count_append]
        simpa [renderTag, List.count_append, List.count_cons] using all
  rw [renderTagset, intercalate_eq, LineRecord.describeSeries, List.count_append]
  exact (name record.measurement).append (tags record.tags)

theorem whole_renderField (separator : Separator delim) (other : delim ≠ '=')
    {field : Text × FieldValue F64} (even : Even (field.1.count '"')) (plain : field.2.Plain) :
    Whole (marks delim true) (renderField renderFloat field) := by
  have key : Whole (marks delim true) (renderName field.1) :=
    (turns_renderName separator field.1).whole even
  have equals : Whole (marks delim true) ['='] :=
    (turns_singleton ⟨show ('=' : Char) ≠ '\\' by decide, show ('=' : Char) ≠ '"' by decide,
      other.symm⟩).whole Even.zero
  rw [Whole, renderField, carry_append_of_carry key, ← List.singleton_append,
    carry_append_of_carry equals]
  exact whole_renderValue separator plain

theorem whole_renderFieldset {fields : List (Text × FieldValue F64)}
    (even : ∀ field ∈ fields, Even (field.1.count '"'))
    (plain : ∀ field ∈ fields, field.2.Plain) :
    Whole (marks ' ' true) (renderFieldset renderFloat fields) := by
  refine Whole.intercalate ((turns_singleton (by decide)).whole Even.zero) fun piece member => ?_
  obtain ⟨field, inside, rfl⟩ := List.mem_map.mp member
  exact whole_renderField separator_space (by decide) (even field inside) (plain field inside)

end WeftDb.LineProtocol
