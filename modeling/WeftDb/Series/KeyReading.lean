import WeftDb.Series.CanonicalForm

/-!
# Reading canonical keys back

The parser accepts exactly the canonical forms, and a key it accepts is enumerated as the tags it
was formed from.
-/

namespace WeftDb.Tags

variable {previous : Option Bytes} {result : Bytes × Nat} {parts : List Bytes} {canonical : Bytes}
  {pairs : List Pair}

theorem readPairs_cons_eq_ok {index : Nat} {part : Bytes} :
    readPairs index previous canonical (part :: parts) = .ok result ↔
      ∃ pair, part = pairText pair ∧ IsPair pair ∧
        (∀ held ∈ previous, compare held pair.1 = .lt) ∧
        readPairs (index + 1) (some pair.1) (pushPair canonical pair.1 pair.2) parts =
          .ok result := by
  rw [readPairs]
  constructor
  · intro read
    cases found : splitOnce tagKeyValueSeparator part with
    | none =>
        rw [found] at read
        cases read
    | some pair =>
        obtain ⟨key, value⟩ := pair
        rw [found] at read
        simp only [bind_eq_ok, checkKey_eq_ok, checkValue_eq_ok] at read
        obtain ⟨key, ⟨rfl, isKey, -⟩, value, ⟨rfl, isValue⟩, read⟩ := read
        refine ⟨(key, value), (splitOnce_eq_some.mp found).1, ⟨isKey, isValue⟩, ?_⟩
        cases previous with
        | none => exact ⟨by simp, read⟩
        | some held =>
            simp only [Option.map_some] at read
            cases order : compare held key with
            | lt =>
                rw [order] at read
                exact ⟨by simp [order], read⟩
            | eq =>
                rw [order] at read
                cases read
            | gt =>
                rw [order] at read
                cases read
  · rintro ⟨⟨key, value⟩, rfl, isPair, above, read⟩
    rw [splitOnce_pairText isPair.1]
    simp only [bind_eq_ok, checkKey_eq_ok, checkValue_eq_ok]
    refine ⟨key, ⟨rfl, isPair.1, by simp⟩, value, ⟨rfl, isPair.2⟩, ?_⟩
    cases previous with
    | none => exact read
    | some held =>
        have below : compare held key = .lt := above held rfl
        rw [Option.map_some, below]
        exact read

theorem readPairs_eq_ok {index : Nat} :
    readPairs index previous canonical parts = .ok result ↔
      ∃ pairs : List Pair, parts = pairs.map pairText ∧ (∀ pair ∈ pairs, IsPair pair) ∧
        (previous.toList ++ pairs.map Prod.fst).Pairwise (fun left right =>
          compare left right = .lt) ∧
        result = (pairs.foldl (fun canonical pair => pushPair canonical pair.1 pair.2) canonical,
          index + pairs.length) := by
  induction parts generalizing index previous canonical with
  | nil =>
      rw [readPairs, Except.ok.injEq]
      constructor
      · rintro rfl
        exact ⟨[], rfl, by simp, by cases previous <;> simp, rfl⟩
      · rintro ⟨pairs, parts, -, -, rfl⟩
        obtain rfl := List.map_eq_nil_iff.mp parts.symm
        rfl
  | cons part parts ih =>
      rw [readPairs_cons_eq_ok]
      simp only [ih]
      constructor
      · rintro ⟨pair, rfl, isPair, above, pairs, rfl, inside, sorted, rfl⟩
        refine ⟨pair :: pairs, rfl, List.forall_mem_cons.mpr ⟨isPair, inside⟩, ?_, ?_⟩
        · rw [List.map_cons, List.pairwise_append]
          refine ⟨by cases previous <;> simp, sorted, fun held member key later => ?_⟩
          have below := above held (Option.mem_toList.mp member)
          rcases List.mem_cons.mp later with rfl | later
          · exact below
          · exact Std.TransCmp.lt_trans below ((List.pairwise_cons.mp sorted).1 key later)
        · rw [List.foldl_cons, List.length_cons, Nat.add_assoc, Nat.add_comm 1]
      · rintro ⟨pairs, parts_eq, inside, sorted, rfl⟩
        cases pairs with
        | nil => cases parts_eq
        | cons pair pairs =>
            obtain ⟨rfl, rfl⟩ := List.cons.inj parts_eq
            obtain ⟨isPair, inside⟩ := List.forall_mem_cons.mp inside
            obtain ⟨-, sorted, above⟩ := List.pairwise_append.mp sorted
            refine ⟨pair, rfl, isPair, fun held member => ?_, pairs, rfl, inside, sorted, ?_⟩
            · exact above held (Option.mem_toList.mpr member) pair.1 List.mem_cons_self
            · rw [List.foldl_cons, List.length_cons, Nat.add_assoc, Nat.add_comm 1]

theorem fromCanonical_eq_ok {bytes key : Bytes} :
    fromCanonical bytes = .ok key ↔
      key = bytes ∧ ∃ pairs, Canonical pairs ∧ bytes = canonicalForm pairs := by
  rw [fromCanonical]
  constructor
  · intro accepted
    split at accepted
    · cases accepted
    · rename_i short
      split at accepted
      · rename_i empty
        obtain rfl := Except.ok.inj accepted
        exact ⟨empty.symm, [], ⟨.nil, by simp, by decide, by decide⟩, empty⟩
      · simp only [bind_eq_ok, Prod.exists, readPairs_eq_ok] at accepted
        obtain ⟨_, _, ⟨pairs, parts, inside, sorted, read⟩, accepted⟩ := accepted
        obtain ⟨rfl, rfl⟩ := Prod.mk.inj read
        have same := canonicalForm_of_splitOn parts
        split at accepted
        · cases accepted
        · rename_i few
          obtain rfl := Except.ok.inj accepted
          refine ⟨same.symm, pairs, ⟨?_, inside, by omega, ?_⟩, same⟩
          · simpa [List.pairwise_map] using sorted
          · rw [← same]
            omega
  · rintro ⟨rfl, pairs, canonical, rfl⟩
    rw [if_neg (Nat.not_lt.mpr canonical.short)]
    cases pairs with
    | nil => rfl
    | cons pair pairs =>
        have filled : pair :: pairs ≠ [] := List.cons_ne_nil _ _
        rw [if_neg (canonicalForm_ne_nil filled), splitOn_canonicalForm filled canonical.inside]
        simp only [bind_eq_ok, Prod.exists, readPairs_eq_ok]
        refine ⟨_, _, ⟨pair :: pairs, rfl, canonical.inside, ?_, rfl⟩, ?_⟩
        · simpa [List.pairwise_map] using canonical.sorted
        · rw [if_neg]
          · rfl
          · have few := canonical.few
            omega

theorem iter_canonicalForm (inside : ∀ pair ∈ pairs, IsPair pair) :
    iter (canonicalForm pairs) = pairs := by
  induction pairs with
  | nil =>
      rw [iter]
      rfl
  | cons first pairs ih =>
      obtain ⟨own, others⟩ := List.forall_mem_cons.mp inside
      rw [iter, if_neg (canonicalForm_ne_nil (List.cons_ne_nil _ _))]
      cases pairs with
      | nil =>
          have alone : canonicalForm [first] = pairText first := by
            rw [canonicalForm_cons, List.flatMap_nil, List.append_nil]
          rw [alone]
          split
          · rw [splitOnce_pairText own.1]
            rfl
          · rename_i found
            rw [splitOnce_eq_none.mpr (not_mem_pairText own)] at found
            cases found
      | cons second pairs =>
          have cut : splitOnce tagPairSeparator (canonicalForm (first :: second :: pairs)) =
              some (pairText first, canonicalForm (second :: pairs)) :=
            splitOnce_eq_some.mpr ⟨canonicalForm_cons_cons first second pairs,
              not_mem_pairText own⟩
          split
          · rename_i found
            rw [cut] at found
            cases found
          · rename_i found
            rw [cut] at found
            obtain ⟨rfl, rfl⟩ := Prod.mk.inj (Option.some.inj found)
            rw [splitOnce_pairText own.1]
            simp only []
            rw [ih others]

theorem find_eq_some (sorted : pairs.Pairwise fun left right => compare left.1 right.1 = .lt)
    {key value : Bytes} : find key pairs = some value ↔ (key, value) ∈ pairs := by
  induction pairs with
  | nil => simp [find]
  | cons pair pairs ih =>
      obtain ⟨candidate, held⟩ := pair
      obtain ⟨above, sorted⟩ := List.pairwise_cons.mp sorted
      rw [find, List.mem_cons]
      have alike : compare key key = .eq := Std.ReflCmp.compare_self
      cases order : compare candidate key with
      | lt =>
          simp only []
          rw [ih sorted, or_iff_right]
          intro same
          obtain ⟨rfl, -⟩ := Prod.mk.inj same
          rw [alike] at order
          cases order
      | eq =>
          obtain rfl := Std.LawfulEqCmp.eq_of_compare order
          simp only [Option.some.injEq, Prod.mk.injEq, true_and]
          rw [or_iff_left, eq_comm]
          intro later
          have below := above _ later
          rw [alike] at below
          cases below
      | gt =>
          simp only [reduceCtorEq, false_iff, not_or]
          constructor
          · intro same
            obtain ⟨rfl, -⟩ := Prod.mk.inj same
            rw [alike] at order
            cases order
          · intro later
            have below := above _ later
            rw [below] at order
            cases order

theorem count_pairText {pair : Pair} (isPair : IsPair pair) :
    (pairText pair).count tagPairSeparator = 0 :=
  List.count_eq_zero.mpr (not_mem_pairText isPair)

theorem len_canonicalForm (inside : ∀ pair ∈ pairs, IsPair pair) :
    len (canonicalForm pairs) = pairs.length := by
  induction pairs with
  | nil => rfl
  | cons first pairs ih =>
      obtain ⟨own, others⟩ := List.forall_mem_cons.mp inside
      rw [len, if_neg (canonicalForm_ne_nil (List.cons_ne_nil _ _))]
      cases pairs with
      | nil =>
          rw [canonicalForm_cons, List.flatMap_nil, List.append_nil, count_pairText own]
          rfl
      | cons second pairs =>
          have rest := ih others
          rw [len, if_neg (canonicalForm_ne_nil (List.cons_ne_nil _ _))] at rest
          rw [canonicalForm_cons_cons, List.count_append, count_pairText own,
            List.count_cons_self, Nat.zero_add, rest]
          rfl

end WeftDb.Tags
