import WeftDb.Series.KeyReading

/-!
# Selecting series

A selector asks of a tag set that some keys have given values and that others are absent, and an
exact one that it has no tags but those asked for.  A catalog is searched on the canonical keys, by
one walk over the tags and the matchers, both sorted by key.
-/

namespace WeftDb.Tags

open Option

/-- A key, and the value it must have or none for its absence. -/
abbrev Matcher := Bytes × Option Bytes

structure SeriesSelector where
  matchers : List Matcher
  exact : Bool
  sorted : matchers.Pairwise fun left right => compare left.1 right.1 = .lt

namespace SeriesSelector

/-- Check the value a matcher asks for, if any. -/
def checkWanted (key : Bytes) : Option Bytes → Except TagError (Option Bytes)
  | none => .ok none
  | some value => do
      let value ← checkValue key value
      return some value

/-- Check the matchers in order, each key before its value. -/
def checkMatchers : List Matcher → Except TagError (List Matcher)
  | [] => .ok []
  | (key, wanted) :: matchers => do
      let key ← checkKey key .reject
      let wanted ← checkWanted key wanted
      let held ← checkMatchers matchers
      return (key, wanted) :: held

/-- The selector of matchers in any order. -/
def build (matchers : List Matcher) (exact : Bool) : Except TagError SeriesSelector := do
  let held ← checkMatchers matchers
  match repeated : repeatedKey (held.insertionSort KeyLE) with
  | some key => .error (.duplicateKey (keyForError key))
  | none =>
      .ok ⟨held.insertionSort KeyLE, exact,
        (repeatedKey_eq_none (List.pairwise_insertionSort KeyLE held)).mp repeated⟩

/-- What a matcher may ask for. -/
def IsMatcher (wanted : Matcher) : Prop :=
  IsKey wanted.1 ∧ ¬reservedTagKeyPrefix <+: wanted.1 ∧ ∀ value ∈ wanted.2, IsValue value

theorem checkWanted_eq_ok {key : Bytes} {wanted checked : Option Bytes} :
    checkWanted key wanted = .ok checked ↔ checked = wanted ∧ ∀ value ∈ wanted, IsValue value := by
  cases wanted with
  | none => simp [checkWanted, eq_comm]
  | some value =>
      simp only [checkWanted, bind_eq_ok, pure_eq_ok, checkValue_eq_ok, mem_def,
        some.injEq, forall_eq']
      constructor
      · rintro ⟨_, ⟨rfl, isValue⟩, rfl⟩
        exact ⟨rfl, isValue⟩
      · rintro ⟨rfl, isValue⟩
        exact ⟨value, ⟨rfl, isValue⟩, rfl⟩

variable {matchers : List Matcher} {pairs : List Pair}

theorem checkMatchers_eq_ok {held : List Matcher} :
    checkMatchers matchers = .ok held ↔
      held = matchers ∧ ∀ wanted ∈ matchers, IsMatcher wanted := by
  induction matchers generalizing held with
  | nil => simp [checkMatchers, eq_comm]
  | cons wanted matchers ih =>
      obtain ⟨key, wanted⟩ := wanted
      simp only [checkMatchers, bind_eq_ok, pure_eq_ok, checkKey_eq_ok, checkWanted_eq_ok, ih,
        List.forall_mem_cons, IsMatcher]
      constructor
      · rintro ⟨_, ⟨rfl, isKey, allowed⟩, _, ⟨rfl, values⟩, _, ⟨rfl, others⟩, rfl⟩
        exact ⟨rfl, ⟨isKey, allowed trivial, values⟩, others⟩
      · rintro ⟨rfl, ⟨isKey, allowed, values⟩, others⟩
        exact ⟨key, ⟨rfl, isKey, fun _ => allowed⟩, wanted, ⟨rfl, values⟩, matchers, ⟨rfl, others⟩,
          rfl⟩

theorem nodup_matchers (selector : SeriesSelector) : (selector.matchers.map Prod.fst).Nodup := by
  refine List.pairwise_map.mpr (selector.sorted.imp fun {left right} below same => ?_)
  have alike : compare right.1 right.1 = .eq := Std.ReflCmp.compare_self
  rw [same, alike] at below
  cases below

theorem strict_insertionSort (nodup : (matchers.map Prod.fst).Nodup) :
    (matchers.insertionSort KeyLE).Pairwise fun left right => compare left.1 right.1 = .lt := by
  have perm := (List.perm_insertionSort KeyLE matchers).map Prod.fst
  have apart := List.pairwise_map.mp (perm.nodup_iff.mpr nodup)
  exact ((List.pairwise_insertionSort KeyLE matchers).and apart).imp
    fun both => lt_of_keyLE both.1 both.2

theorem build_eq_ok {exact : Bool} {selector : SeriesSelector} :
    build matchers exact = .ok selector ↔
      selector.matchers.Perm matchers ∧ selector.exact = exact ∧
        ∀ wanted ∈ matchers, IsMatcher wanted := by
  simp only [build, bind_eq_ok, checkMatchers_eq_ok]
  constructor
  · rintro ⟨_, ⟨rfl, checked⟩, built⟩
    split at built
    · cases built
    · cases built
      exact ⟨List.perm_insertionSort KeyLE _, rfl, checked⟩
  · rintro ⟨perm, rfl, checked⟩
    have strict := strict_insertionSort ((perm.map Prod.fst).nodup_iff.mp selector.nodup_matchers)
    have same : matchers.insertionSort KeyLE = selector.matchers := by
      refine List.Perm.eq_of_pairwise ?_ strict selector.sorted
        ((List.perm_insertionSort KeyLE matchers).trans perm.symm)
      intro left right _ _ below above
      rw [compare_swap, below] at above
      cases above
    refine ⟨matchers, ⟨rfl, checked⟩, ?_⟩
    split
    · rename_i repeated
      rw [(repeatedKey_eq_none (List.pairwise_insertionSort KeyLE matchers)).mpr strict] at repeated
      cases repeated
    · obtain ⟨held, exact, sorted⟩ := selector
      subst same
      rfl

/-- The number of matchers with a value, if all of them hold of a tag set. -/
def valuedMatches (tags : Bytes) : List Matcher → Nat → Option Nat
  | [], valued => some valued
  | (key, some value) :: matchers, valued =>
      if get tags key ≠ some value then none else valuedMatches tags matchers (valued + 1)
  | (key, none) :: matchers, valued =>
      if (get tags key).isSome then none else valuedMatches tags matchers valued

/-- Whether a selector matches a tag set. -/
def matchesTags (selector : SeriesSelector) (tags : Bytes) : Bool :=
  match valuedMatches tags selector.matchers 0 with
  | none => false
  | some valued => !selector.exact || len tags == valued

/-- Walk the tags up to a key: its value, the tags behind it and how many have been seen. -/
def advance (wantedKey : Bytes) : List Pair → Nat → Option Bytes × List Pair × Nat
  | [], seen => (none, [], seen)
  | (candidate, value) :: pairs, seen =>
      match compare candidate wantedKey with
      | .lt => advance wantedKey pairs (seen + 1)
      | .eq => (some value, pairs, seen + 1)
      | .gt => (none, (candidate, value) :: pairs, seen)

/-- Walk the matchers and the tags: how many tags were seen or remain and how many matchers have a
value, if all of them hold. -/
def walk : List Matcher → List Pair → Nat → Nat → Option (Nat × Nat)
  | [], pairs, seen, valued => some (seen + pairs.length, valued)
  | (wantedKey, wanted) :: matchers, pairs, seen, valued =>
      let (found, pairs, seen) := advance wantedKey pairs seen
      match wanted with
      | some value => if found ≠ some value then none else walk matchers pairs seen (valued + 1)
      | none => if found.isSome then none else walk matchers pairs seen valued

/-- Whether a selector matches a canonical key. -/
def matchesKey (selector : SeriesSelector) (key : Bytes) : Bool :=
  match walk selector.matchers (iter key) 0 0 with
  | none => false
  | some (seen, valued) => !selector.exact || seen == valued

/-- Whether sorted tags have what a matcher asks for. -/
def Holds (pairs : List Pair) (wanted : Matcher) : Prop := find wanted.1 pairs = wanted.2

instance (pairs : List Pair) : DecidablePred (Holds pairs) := fun wanted =>
  inferInstanceAs (Decidable (find wanted.1 pairs = wanted.2))

/-- The matchers which carry a value, as tags. -/
def valuedTags (matchers : List Matcher) : List Pair :=
  matchers.filterMap fun wanted => wanted.2.map fun value => (wanted.1, value)

theorem advance_spec (wantedKey : Bytes) (pairs : List Pair) (seen : Nat) :
    ∃ rest reached, advance wantedKey pairs seen = (find wantedKey pairs, rest, reached) ∧
      reached + rest.length = seen + pairs.length ∧
      ∀ later, compare wantedKey later = .lt → find later rest = find later pairs := by
  induction pairs generalizing seen with
  | nil => exact ⟨[], seen, rfl, rfl, fun _ _ => rfl⟩
  | cons pair pairs ih =>
      obtain ⟨candidate, value⟩ := pair
      rw [advance, find]
      cases order : compare candidate wantedKey with
      | lt =>
          obtain ⟨rest, reached, walked, counted, answers⟩ := ih (seen + 1)
          refine ⟨rest, reached, walked, ?_, fun later above => ?_⟩
          · rw [counted, List.length_cons]
            omega
          · have below : compare candidate later = .lt := Std.TransCmp.lt_trans order above
            rw [answers later above, find, below]
      | eq =>
          obtain rfl := Std.LawfulEqCmp.eq_of_compare order
          refine ⟨pairs, seen + 1, rfl, ?_, fun later above => ?_⟩
          · rw [List.length_cons]
            omega
          · rw [find, above]
      | gt => exact ⟨(candidate, value) :: pairs, seen, rfl, rfl, fun _ _ => rfl⟩

theorem length_valuedTags_cons (wanted : Matcher) (matchers : List Matcher) :
    (valuedTags (wanted :: matchers)).length =
      wanted.2.toList.length + (valuedTags matchers).length := by
  obtain ⟨key, value⟩ := wanted
  cases value with
  | none => simp [valuedTags]
  | some value =>
      simp [valuedTags]
      omega

theorem walk_eq (sorted : matchers.Pairwise fun left right => compare left.1 right.1 = .lt)
    (pairs : List Pair) (seen valued : Nat) :
    walk matchers pairs seen valued =
      if ∀ wanted ∈ matchers, Holds pairs wanted then
        some (seen + pairs.length, valued + (valuedTags matchers).length)
      else none := by
  induction matchers generalizing pairs seen valued with
  | nil => simp [walk, valuedTags]
  | cons wanted matchers ih =>
      obtain ⟨wantedKey, wanted⟩ := wanted
      obtain ⟨above, sorted_later⟩ := List.pairwise_cons.mp sorted
      obtain ⟨rest, reached, walked, counted, answers⟩ := advance_spec wantedKey pairs seen
      have later : (∀ wanted ∈ matchers, Holds rest wanted) ↔
          ∀ wanted ∈ matchers, Holds pairs wanted := by
        refine forall₂_congr fun wanted member => ?_
        rw [Holds, Holds, answers wanted.1 (above wanted member)]
      have lengths := length_valuedTags_cons (wantedKey, wanted) matchers
      rw [walk, walked]
      cases wanted with
      | none =>
          simp only [toList_none, List.length_nil, Nat.zero_add] at lengths
          simp only [List.forall_mem_cons]
          by_cases found : find wantedKey pairs = none
          · rw [if_neg (by simp [found]), ih sorted_later, counted, lengths]
            exact if_congr (later.trans (and_iff_right found).symm) rfl rfl
          · rw [if_pos (isSome_iff_ne_none.mpr found), if_neg (fun held => found held.1)]
      | some value =>
          simp only [toList_some, List.length_singleton] at lengths
          simp only [List.forall_mem_cons, ne_eq]
          by_cases found : find wantedKey pairs = some value
          · rw [if_neg (not_not.mpr found), ih sorted_later, counted, lengths, Nat.add_assoc]
            exact if_congr (later.trans (and_iff_right found).symm) rfl rfl
          · rw [if_pos found, if_neg (fun held => found held.1)]

theorem valuedMatches_eq (tags : Bytes) (matchers : List Matcher) (valued : Nat) :
    valuedMatches tags matchers valued =
      if ∀ wanted ∈ matchers, Holds (iter tags) wanted then
        some (valued + (valuedTags matchers).length)
      else none := by
  induction matchers generalizing valued with
  | nil => simp [valuedMatches, valuedTags]
  | cons wanted matchers ih =>
      obtain ⟨key, wanted⟩ := wanted
      have lengths := length_valuedTags_cons (key, wanted) matchers
      simp only [List.forall_mem_cons]
      cases wanted with
      | none =>
          simp only [toList_none, List.length_nil, Nat.zero_add] at lengths
          rw [valuedMatches]
          by_cases found : get tags key = none
          · rw [if_neg (by simp [found]), ih, lengths]
            exact if_congr (and_iff_right found).symm rfl rfl
          · rw [if_pos (isSome_iff_ne_none.mpr found), if_neg (fun held => found held.1)]
      | some value =>
          simp only [toList_some, List.length_singleton] at lengths
          rw [valuedMatches]
          by_cases found : get tags key = some value
          · rw [if_neg (not_not.mpr found), ih, lengths, Nat.add_assoc]
            exact if_congr (and_iff_right found).symm rfl rfl
          · rw [if_pos found, if_neg (fun held => found held.1)]

theorem mem_valuedTags {pair : Pair} :
    pair ∈ valuedTags matchers ↔ (pair.1, some pair.2) ∈ matchers := by
  simp only [valuedTags, List.mem_filterMap, map_eq_some_iff]
  constructor
  · rintro ⟨⟨key, wanted⟩, member, value, rfl, rfl⟩
    exact member
  · exact fun member => ⟨_, member, pair.2, rfl, rfl⟩

theorem nodup_of_sorted {Value : Type} {pairs : List (Bytes × Value)}
    (sorted : pairs.Pairwise fun left right => compare left.1 right.1 = .lt) : pairs.Nodup := by
  refine sorted.imp fun {left right} below same => ?_
  have alike : compare right.1 right.1 = .eq := Std.ReflCmp.compare_self
  rw [same, alike] at below
  cases below

theorem sorted_valuedTags
    (sorted : matchers.Pairwise fun left right => compare left.1 right.1 = .lt) :
    (valuedTags matchers).Pairwise fun left right => compare left.1 right.1 = .lt := by
  refine sorted.filterMap _ fun first second below pair found other also => ?_
  obtain ⟨value, -, rfl⟩ := map_eq_some_iff.mp found
  obtain ⟨value, -, rfl⟩ := map_eq_some_iff.mp also
  exact below

theorem length_eq_iff
    (sorted_matchers : matchers.Pairwise fun left right => compare left.1 right.1 = .lt)
    (sorted_pairs : pairs.Pairwise fun left right => compare left.1 right.1 = .lt)
    (held : ∀ wanted ∈ matchers, Holds pairs wanted) :
    pairs.length = (valuedTags matchers).length ↔
      ∀ pair ∈ pairs, (pair.1, some pair.2) ∈ matchers := by
  have distinct := nodup_of_sorted (sorted_valuedTags sorted_matchers)
  have inside : valuedTags matchers ⊆ pairs := by
    intro pair member
    have found : find pair.1 pairs = some pair.2 := held _ (mem_valuedTags.mp member)
    exact (find_eq_some sorted_pairs).mp found
  have subperm := distinct.subperm inside
  constructor
  · intro counted pair member
    have perm := subperm.perm_of_length_le counted.le
    exact mem_valuedTags.mp (perm.mem_iff.mpr member)
  · intro named
    have back : pairs ⊆ valuedTags matchers := fun pair member =>
      mem_valuedTags.mpr (named pair member)
    exact Nat.le_antisymm ((nodup_of_sorted sorted_pairs).subperm back).length_le
      subperm.length_le

theorem matches_canonicalForm (selector : SeriesSelector) (canonical : Canonical pairs) :
    selector.matchesKey (canonicalForm pairs) = selector.matchesTags (canonicalForm pairs) ∧
      (selector.matchesTags (canonicalForm pairs) = true ↔
        (∀ wanted ∈ selector.matchers, Holds pairs wanted) ∧
          (selector.exact = true → ∀ pair ∈ pairs, (pair.1, some pair.2) ∈ selector.matchers)) := by
  have tags := iter_canonicalForm canonical.inside
  have counted := len_canonicalForm canonical.inside
  rw [matchesKey, matchesTags, walk_eq selector.sorted, valuedMatches_eq, tags, counted]
  simp only [Nat.zero_add]
  by_cases held : ∀ wanted ∈ selector.matchers, Holds pairs wanted
  · rw [if_pos held, if_pos held]
    refine ⟨rfl, ?_⟩
    have named := length_eq_iff selector.sorted canonical.sorted held
    rw [and_iff_right held, ← named]
    cases selector.exact <;> simp
  · rw [if_neg held, if_neg held]
    exact ⟨rfl, iff_of_false Bool.false_ne_true fun both => held both.1⟩

/-- On a canonical key the walk decides what matching the tag set does: whether every matcher holds
and, for an exact selector, no tag is beyond the matchers with a value. -/
theorem matchesKey_canonical (selector : SeriesSelector) {bytes key : Bytes}
    (accepted : fromCanonical bytes = .ok key) :
    selector.matchesKey key = selector.matchesTags key ∧
      (selector.matchesTags key = true ↔
        (∀ wanted ∈ selector.matchers, get key wanted.1 = wanted.2) ∧
          (selector.exact = true →
            ∀ pair ∈ iter key, (pair.1, some pair.2) ∈ selector.matchers)) := by
  obtain ⟨rfl, pairs, canonical, rfl⟩ := fromCanonical_eq_ok.mp accepted
  have decided := selector.matches_canonicalForm canonical
  simp only [get, iter_canonicalForm canonical.inside]
  exact decided

/-- A query of matchers in any order is accepted exactly when each may be asked for and none repeats
a key.  Its order does not matter, and the walk over a canonical key decides what it asks. -/
theorem build_selects (matchers : List Matcher) (exact : Bool) :
    ((∃ selector, build matchers exact = .ok selector) ↔
      (∀ wanted ∈ matchers, IsMatcher wanted) ∧ (matchers.map Prod.fst).Nodup) ∧
    ∀ selector, build matchers exact = .ok selector →
      (∀ permuted, matchers.Perm permuted → build permuted exact = .ok selector) ∧
      ∀ bytes key, fromCanonical bytes = .ok key →
        (selector.matchesKey key = true ↔
          (∀ wanted ∈ matchers, get key wanted.1 = wanted.2) ∧
            (exact = true → ∀ pair ∈ iter key, (pair.1, some pair.2) ∈ matchers)) := by
  refine ⟨⟨?_, ?_⟩, fun selector built => ?_⟩
  · rintro ⟨selector, built⟩
    obtain ⟨perm, -, checked⟩ := build_eq_ok.mp built
    exact ⟨checked, (perm.map Prod.fst).nodup_iff.mp selector.nodup_matchers⟩
  · rintro ⟨checked, nodup⟩
    exact ⟨⟨matchers.insertionSort KeyLE, exact, strict_insertionSort nodup⟩,
      build_eq_ok.mpr ⟨List.perm_insertionSort KeyLE matchers, rfl, checked⟩⟩
  · obtain ⟨perm, rfl, checked⟩ := build_eq_ok.mp built
    refine ⟨fun permuted same => build_eq_ok.mpr ⟨perm.trans same, rfl, fun wanted member =>
      checked wanted (same.mem_iff.mpr member)⟩, fun bytes key accepted => ?_⟩
    obtain ⟨rfl, pairs, canonical, rfl⟩ := fromCanonical_eq_ok.mp accepted
    obtain ⟨walked, decided⟩ := selector.matches_canonicalForm canonical
    rw [walked, decided]
    simp only [get, iter_canonicalForm canonical.inside, perm.mem_iff, Holds]

/-- The key of host `a`. -/
theorem matchesKey_canonical_host :
    matchesKey ⟨[([0x68], some [0x61])], true, List.pairwise_singleton _ _⟩ [0x68, 0x1F, 0x61] =
      matchesTags ⟨[([0x68], some [0x61])], true, List.pairwise_singleton _ _⟩
        [0x68, 0x1F, 0x61] := by
  have accepted : fromCanonical [0x68, 0x1F, 0x61] = .ok [0x68, 0x1F, 0x61] := by decide
  exact (matchesKey_canonical ⟨[([0x68], some [0x61])], true, List.pairwise_singleton _ _⟩
    accepted).1

/-- An exact selector counts a reserved key as a tag beyond its matchers. -/
theorem exact_selector_refuses_reserved_key :
    ¬∀ (selector : SeriesSelector) (bytes key : Bytes), fromCanonical bytes = .ok key →
      (selector.matchesKey key = true ↔
        (∀ wanted ∈ selector.matchers, get key wanted.1 = wanted.2) ∧
          (selector.exact = true → ∀ pair ∈ iter key, ¬reservedTagKeyPrefix <+: pair.1 →
            (pair.1, some pair.2) ∈ selector.matchers)) := by
  intro decides
  let pairs : List Pair := [([0x5F, 0x5F, 0x73], [0x31]), ([0x68], [0x61])]
  let selector : SeriesSelector := ⟨[([0x68], some [0x61])], true, List.pairwise_singleton _ _⟩
  have shard : IsPair ([0x5F, 0x5F, 0x73], [0x31]) :=
    ⟨(checkKey_eq_ok.mp (show checkKey [0x5F, 0x5F, 0x73] .accept = .ok _ by rfl)).2.1,
      (checkValue_eq_ok.mp (show checkValue [] [0x31] = .ok [0x31] by decide)).2⟩
  have host : IsPair ([0x68], [0x61]) :=
    ⟨(checkKey_eq_ok.mp (show checkKey [0x68] .accept = .ok _ by rfl)).2.1,
      (checkValue_eq_ok.mp (show checkValue [] [0x61] = .ok [0x61] by decide)).2⟩
  have inside : ∀ pair ∈ pairs, IsPair pair := by
    intro pair member
    rcases List.mem_cons.mp member with rfl | member
    · exact shard
    · rwa [List.mem_singleton.mp member]
  have canonical : Canonical pairs := ⟨by decide, inside, by decide, by decide⟩
  have accepted := fromCanonical_eq_ok.mpr ⟨rfl, pairs, canonical, rfl⟩
  have refused : ¬selector.matchesKey (canonicalForm pairs) = true := by
    rw [(selector.matches_canonicalForm canonical).1,
      (selector.matches_canonicalForm canonical).2]
    exact fun both => absurd (both.2 rfl _ List.mem_cons_self) (by decide)
  refine refused ((decides selector _ _ accepted).mpr ⟨?_, fun _ pair member plain => ?_⟩)
  · simp only [get, iter_canonicalForm inside]
    decide
  · rw [iter_canonicalForm inside] at member
    rcases List.mem_cons.mp member with rfl | member
    · exact absurd ⟨[0x73], rfl⟩ plain
    · rw [List.mem_singleton.mp member]
      exact List.mem_cons_self

end SeriesSelector

end WeftDb.Tags
