import WeftDb.Codec.Blocks

/-!
# Decoding what was encoded

A block's fields all fit the width in its header, so each reads back; its header gives the length of
its data, which is the length that the estimate charges.
-/

namespace WeftDb.Codec

open BitStream BlockWalk

variable {words : List U64} {k : Nat}

theorem bitLength_le_widest {word : U64} (member : word ∈ words) :
    bitLength word ≤ widest words := by
  rw [widest]
  cases found : (words.map bitLength).max? with
  | none =>
      rw [List.max?_eq_none_iff, List.map_eq_nil_iff] at found
      rw [found] at member
      cases member
  | some width =>
      exact (List.max?_eq_some_iff.mp found).2 _ (List.mem_map_of_mem member)

theorem lt_two_pow_widest {word : U64} (member : word ∈ words) : word.toNat < 2 ^ widest words :=
  bitLength_le_iff.mp (bitLength_le_widest member)

theorem widest_le (words : List U64) : widest words ≤ 64 := by
  rw [widest]
  cases found : (words.map bitLength).max? with
  | none => exact Nat.zero_le 64
  | some width =>
      obtain ⟨word, -, rfl⟩ := List.mem_map.mp (List.max?_eq_some_iff.mp found).1
      exact Nat.sub_le 64 _

theorem toNat_widthByte {width : Nat} (narrow : width ≤ 64) :
    (widthByte width).toNat = width := by
  rw [widthByte, if_pos (by omega), BitVec.toNat_ofNat, Nat.mod_eq_of_lt (by omega)]

theorem map_readBits_packFields {width : Nat} {fields : List U64} (narrow : width ≤ 64)
    (fits : ∀ field ∈ fields, field.toNat < 2 ^ width) :
    (List.range fields.length).map (fun index =>
      readBits (packFields width fields) (index * width) width) = fields := by
  refine List.ext_getElem (by simp) fun index _ inside => ?_
  rw [List.getElem_map, List.getElem_range]
  exact readBits_packFields narrow (List.getElem?_eq_getElem inside)
    (fits _ (List.getElem_mem inside))

theorem packFields_zero (fields : List U64) : packFields 0 fields = [] := by
  have empty := length_packFields 0 fields
  rw [Nat.mul_zero] at empty
  exact List.length_eq_zero_iff.mp empty

theorem bitpackEncode_eq (values : List I64) :
    bitpackEncode values =
      (bitpackWidth values, packFields (bitpackWidth values) (values.map zigzag)) := by
  rw [bitpackEncode]
  split
  · rename_i none
    rw [none, packFields_zero]
  · rfl

theorem bitpackDecode_eq (width : Nat) (bytes : List U8) (count : Nat) :
    bitpackDecode width bytes count =
      (List.range count).map fun index => bitpackDecodeAt width bytes index := by
  rw [bitpackDecode]
  split
  · rename_i none
    simp [bitpackDecodeAt, none]
  · rename_i some
    simp [bitpackDecodeAt, some]

theorem bitpackDecodeAt_eq (width : Nat) (bytes : List U8) (index : Nat) :
    bitpackDecodeAt width bytes index = unzigzag (readBits bytes (index * width) width) := by
  rw [bitpackDecodeAt]
  split
  · rename_i none
    rw [none, readBits, if_pos rfl]
    rfl
  · rfl

theorem bitpackDecode_bitpackEncode (values : List I64) :
    bitpackDecode (bitpackEncode values).1 (bitpackEncode values).2 values.length = values := by
  have read := @map_readBits_packFields (bitpackWidth values) (values.map zigzag)
    (widest_le _) fun _ member => lt_two_pow_widest member
  rw [List.length_map] at read
  have back := congrArg (List.map unzigzag) read
  rw [List.map_map, List.map_map] at back
  rw [bitpackEncode_eq, bitpackDecode_eq]
  simp only [bitpackDecodeAt_eq]
  refine back.trans ((List.map_congr_left fun value _ => ?_).trans (List.map_id values))
  exact unzigzag_zigzag value

theorem blockedBitpack_reads : Reads blockedHeader bitpackDecode blockedBitpackBlock := by
  intro chunk _
  refine ⟨[widthByte (bitpackWidth chunk)], (bitpackEncode chunk).2, bitpackWidth chunk, ?_, ?_, ?_⟩
  · rw [blockedBitpackBlock, bitpackEncode_eq]
    rfl
  · intro before after
    have narrow : bitpackWidth chunk ≤ 64 := widest_le _
    rw [blockedHeader, List.singleton_append, byteAt_append, toNat_widthByte narrow,
      bitpackEncode_eq, length_packFields, List.length_map]
    rfl
  · have back := bitpackDecode_bitpackEncode chunk
    rwa [bitpackEncode_eq] at back ⊢

theorem length_blockedBitpackBlock (chunk : List I64) :
    (blockedBitpackBlock chunk).length =
      1 + divCeil (chunk.length * bitpackWidth chunk) 8 := by
  rw [blockedBitpackBlock, bitpackEncode_eq]
  simp only [List.length_cons, length_packFields, List.length_map]
  exact Nat.add_comm _ 1

theorem chunks_sum_nil {block : Nat} {size : List I64 → Nat} (values : List I64) :
    (if values = [] then 0 else ((chunks block values).map size).sum) =
      ((chunks block values).map size).sum := by
  split
  · rename_i none
    rw [none, chunks_nil]
    rfl
  · rfl

theorem forReconstruct_forResidual (v min : I64) : forReconstruct min (forResidual v min) = v := by
  rw [forReconstruct, forResidual, BitVec.add_comm, BitVec.sub_add_cancel]

theorem forRows_packFields (min : I64) (chunk : List I64) :
    let residuals := chunk.map fun v => forResidual v min
    forRows (min, widest residuals) (packFields (widest residuals) residuals)
      (List.range chunk.length) = chunk := by
  intro residuals
  have read := @map_readBits_packFields (widest residuals) residuals (widest_le _)
    fun _ member => lt_two_pow_widest member
  rw [List.length_map] at read
  have back := congrArg (List.map (forReconstruct min)) read
  rw [List.map_map, List.map_map] at back
  refine back.trans ((List.map_congr_left fun value _ => ?_).trans (List.map_id chunk))
  exact forReconstruct_forResidual value min

theorem length_zigzagVarint (value : I64) :
    (forPushUvarint (zigzag value)).length = zigzagVarintLen value :=
  length_forPushUvarint _

theorem byteAt_behind (before varint after : List U8) (byte : U8) :
    byteAt (before ++ (varint ++ byte :: after)) (before.length + varint.length) = byte := by
  have read := byteAt_append (before ++ varint) after byte
  rwa [List.append_assoc, List.length_append] at read

theorem for_reads : Reads forHeader
    (fun state data blockLen => forRows state data (List.range blockLen)) forBlock := by
  intro chunk _
  set residuals := chunk.map fun v => forResidual v (minimum chunk) with residuals_eq
  refine ⟨forPushUvarint (zigzag (minimum chunk)) ++ [widthByte (widest residuals)],
    packFields (widest residuals) residuals, (minimum chunk, widest residuals), ?_, ?_, ?_⟩
  · rw [forBlock, List.append_assoc, List.singleton_append]
    simp only [← residuals_eq]
    split
    · rename_i none
      rw [none, packFields_zero]
    · rfl
  · intro before after
    rw [List.append_assoc, List.singleton_append, forHeader, forReadUvarint_push]
    simp only [byteAt_behind]
    rw [toNat_widthByte (widest_le _), length_packFields, unzigzag_zigzag, residuals_eq,
      List.length_map, List.length_append, List.length_singleton, Nat.add_assoc,
      Nat.add_sub_cancel_left]
  · exact forRows_packFields (minimum chunk) chunk

theorem length_forBlock (chunk : List I64) :
    (forBlock chunk).length =
      let min := minimum chunk
      let width := widest (chunk.map fun v => forResidual v min)
      zigzagVarintLen min + 1 + divCeil (chunk.length * width) 8 := by
  rw [forBlock, List.length_append, length_zigzagVarint, List.length_cons]
  simp only []
  split
  · rename_i none
    rw [none, Nat.mul_zero, List.length_nil]
    rfl
  · rw [length_packFields, List.length_map]
    omega

theorem trailingZerosFrom_le {m : Nat} (low : k ≤ dforMaxExponent) :
    trailingZerosFrom m k ≤ dforMaxExponent := by
  induction m, k using trailingZerosFrom.induct with
  | case1 m k more ih =>
      rw [trailingZerosFrom, if_pos more]
      exact ih more.1
  | case2 m k done => rwa [trailingZerosFrom, if_neg done]

theorem pow_dvd_of_trailingZerosFrom {m j : Nat} (from_k : k ≤ j)
    (counted : j ≤ trailingZerosFrom m k) : 10 ^ (j - k) ∣ m := by
  induction m, k using trailingZerosFrom.induct with
  | case1 m k more ih =>
      rw [trailingZerosFrom, if_pos more] at counted
      rcases Nat.eq_or_lt_of_le from_k with rfl | later
      · rw [Nat.sub_self, Nat.pow_zero]
        exact Nat.one_dvd m
      · obtain ⟨factor, split⟩ := ih later counted
        refine ⟨factor, ?_⟩
        rw [show j - k = j - (k + 1) + 1 by omega, Nat.pow_succ, Nat.mul_right_comm, ← split]
        omega
  | case2 m k done =>
      rw [trailingZerosFrom, if_neg done] at counted
      rw [show j - k = 0 by omega, Nat.pow_zero]
      exact Nat.one_dvd m

theorem decimalTrailingZeros_le (v : I64) : decimalTrailingZeros v ≤ dforMaxExponent := by
  rw [decimalTrailingZeros]
  split
  · exact le_rfl
  · exact trailingZerosFrom_le (Nat.zero_le _)

theorem pow_dvd_of_le_decimalTrailingZeros {v : I64} (counted : k ≤ decimalTrailingZeros v) :
    ((10 ^ k : Nat) : Int) ∣ v.toInt := by
  rw [decimalTrailingZeros] at counted
  refine Int.ofNat_dvd_left.mpr ?_
  split at counted
  · rename_i zero
    rw [zero]
    exact Nat.dvd_zero _
  · exact pow_dvd_of_trailingZerosFrom (Nat.zero_le k) counted

theorem toInt_tenPow (low : k ≤ dforMaxExponent) : (tenPow k).toInt = ((10 ^ k : Nat) : Int) := by
  have small : 10 ^ k ≤ 10 ^ 18 := Nat.pow_le_pow_right (by omega) low
  rw [tenPow, BitVec.toInt_ofNat']
  generalize 10 ^ k = power at small ⊢
  refine Int.bmod_eq_of_le ?_ ?_ <;> omega

theorem sdiv_mul_tenPow {v : I64} (low : k ≤ dforMaxExponent)
    (multiple : ((10 ^ k : Nat) : Int) ∣ v.toInt) : v.sdiv (tenPow k) * tenPow k = v := by
  refine BitVec.eq_of_toInt_eq ?_
  rw [BitVec.toInt_mul, BitVec.toInt_sdiv, toInt_tenPow low, Int.bmod_mul_bmod,
    Int.tdiv_mul_cancel multiple, BitVec.toInt_bmod_cancel]

theorem dforBlock_exponent {chunk : List I64} (filled : chunk ≠ []) :
    (dforBlock chunk).1 ≤ dforMaxExponent ∧
      ∀ v ∈ chunk, ((10 ^ (dforBlock chunk).1 : Nat) : Int) ∣ v.toInt := by
  rw [dforBlock]
  cases found : (chunk.map decimalTrailingZeros).min? with
  | none => exact absurd (List.map_eq_nil_iff.mp (List.min?_eq_none_iff.mp found)) filled
  | some k =>
      obtain ⟨member, least⟩ := List.min?_eq_some_iff.mp found
      obtain ⟨v, -, rfl⟩ := List.mem_map.mp member
      exact ⟨decimalTrailingZeros_le v, fun other held =>
        pow_dvd_of_le_decimalTrailingZeros (least _ (List.mem_map_of_mem held))⟩

theorem dforRows_eq (min multiplier : I64) (width : Nat) (data : List U8) (rows : List Nat) :
    dforRows (min, multiplier, width) data rows =
      (forRows (min, width) data rows).map fun reduced => reduced * multiplier := by
  rw [dforRows, forRows, List.map_map]
  rfl

theorem dfor_reads : Reads dforReadHeader
    (fun state data blockLen => dforRows state data (List.range blockLen)) dforEncodeBlock := by
  intro chunk filled
  obtain ⟨low, multiple⟩ := dforBlock_exponent filled
  cases choice : dforBlock chunk with
  | mk k rest =>
      obtain ⟨reduced, min, width⟩ := rest
      rw [choice] at low multiple
      have small : k < 256 := Nat.lt_of_le_of_lt low (by decide)
      obtain ⟨-, reduced_eq, -, width_eq⟩ :
          _ ∧ reduced = chunk.map (fun v => v.sdiv (tenPow k)) ∧ min = minimum reduced ∧
            width = widest (reduced.map fun v => forResidual v min) := by
        rw [dforBlock] at choice
        simp only [Prod.mk.injEq] at choice
        obtain ⟨rfl, rfl, rfl, rfl⟩ := choice
        exact ⟨trivial, rfl, rfl, rfl⟩
      have length_reduced : reduced.length = chunk.length := by rw [reduced_eq, List.length_map]
      have exponent : (if k < 256 then BitVec.ofNat 8 k else 0 : U8).toNat = k := by
        rw [if_pos small, BitVec.toNat_ofNat, Nat.mod_eq_of_lt small]
      have narrow : width ≤ 64 := width_eq ▸ widest_le _
      refine ⟨forPushUvarint (zigzag min) ++
          [if k < 256 then BitVec.ofNat 8 k else 0, widthByte width],
        packFields width (reduced.map fun v => forResidual v min), (min, tenPow k, width), ?_, ?_,
        ?_⟩
      · rw [dforEncodeBlock, choice, List.append_assoc]
        rfl
      · intro before after
        have behind := byteAt_behind (before ++ forPushUvarint (zigzag min))
          [if k < 256 then BitVec.ofNat 8 k else 0] after (widthByte width)
        rw [List.append_assoc, List.length_append, List.length_singleton] at behind
        rw [List.append_assoc, dforReadHeader, List.cons_append, List.singleton_append,
          forReadUvarint_push]
        simp only [byteAt_behind]
        rw [exponent, Nat.min_eq_left low, unzigzag_zigzag]
        rw [List.singleton_append] at behind
        rw [behind, toNat_widthByte narrow, length_packFields, List.length_map, length_reduced,
          List.length_append, List.length_cons, List.length_singleton, Nat.add_assoc,
          Nat.add_sub_cancel_left]
      · have back := forRows_packFields min reduced
        simp only [← width_eq, length_reduced] at back
        refine (dforRows_eq min (tenPow k) width _ _).trans ?_
        rw [back, reduced_eq, List.map_map]
        refine (List.map_congr_left fun v member => ?_).trans (List.map_id chunk)
        exact sdiv_mul_tenPow low (multiple v member)

theorem length_dforEncodeBlock (chunk : List I64) :
    (dforEncodeBlock chunk).length =
      let (_, _, min, width) := dforBlock chunk
      zigzagVarintLen min + 2 + divCeil (chunk.length * width) 8 := by
  rw [dforEncodeBlock]
  have length_reduced : (dforBlock chunk).2.1.length = chunk.length := by
    rw [dforBlock, List.length_map]
  cases choice : dforBlock chunk with
  | mk k rest =>
      obtain ⟨reduced, min, width⟩ := rest
      rw [choice] at length_reduced
      simp only [List.length_append, List.length_cons, length_packFields, List.length_map,
        length_zigzagVarint]
      rw [show reduced.length = chunk.length from length_reduced]
      omega

end WeftDb.Codec
