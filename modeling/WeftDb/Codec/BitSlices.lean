import WeftDb.Codec.RoundTrip

/-!
# Bit planes

Bit `b` of lane `l` of a tile lies at bit `l` of plane `b`.  Setting a lane's bits sets just those
places, and both the single lane and the whole tile, which is read eight lanes and eight planes at
a time, collect a lane from them.
-/

namespace WeftDb.Codec

open BitStream BlockWalk

variable {planes out : List U8} {planeBytes width lane place : Nat}
variable {lanes : List U64}

theorem shift_and_one_iff (positive : 0 < width) (word : BitVec width) (place : Nat) :
    word >>> place &&& BitVec.ofNat width 1 = BitVec.ofNat width 1 ↔ word.getLsbD place = true := by
  rw [BitVec.and_one_eq_setWidth_ofBool_getLsbD, BitVec.getLsbD_ushiftRight, Nat.add_zero]
  cases word.getLsbD place
  · refine iff_of_false (fun same => ?_) Bool.false_ne_true
    have bit := congrArg (fun word => BitVec.getLsbD word 0) same
    simp [positive] at bit
  · refine iff_of_true (BitVec.eq_of_getLsbD_eq fun other _ => ?_) rfl
    rw [BitVec.getLsbD_setWidth]
    cases other <;> simp [positive]

theorem getLsbD_one_shift (shift : Nat) :
    ((BitVec.ofNat width 1) <<< shift).getLsbD place = decide (place < width ∧ place = shift) := by
  rw [BitVec.getLsbD_shiftLeft, BitVec.getLsbD_one]
  by_cases same : place = shift
  · rw [same]
    by_cases within : shift < width
    · simp [within]
      omega
    · simp [within]
  · rw [decide_eq_false (show ¬(place < width ∧ place = shift) from fun both => same both.2)]
    rcases Nat.lt_or_ge place shift with below | above
    · simp [below]
    · rw [decide_eq_false (show ¬place - shift = 0 by omega)]
      simp

theorem getLsbD_foldl_or {choose : Nat → Prop} [DecidablePred choose] {target : Nat → Nat}
    (steps : List Nat) (word : U64) (within : place < 64) :
    (steps.foldl (fun word step =>
        if choose step then word ||| (1 : U64) <<< target step else word) word).getLsbD place =
      (word.getLsbD place || decide (∃ step ∈ steps, choose step ∧ place = target step)) := by
  induction steps generalizing word with
  | nil => simp
  | cons step steps ih =>
      rw [List.foldl_cons, ih]
      split
      · rename_i chosen
        rw [BitVec.getLsbD_or, show (1 : U64) = 1#64 from rfl, getLsbD_one_shift, Bool.or_assoc]
        congr 1
        rw [← Bool.decide_or]
        simp [chosen, within]
      · rename_i passed
        congr 1
        simp [passed]

theorem bitAt_modify {index shift : Nat} (inner : shift < 8) :
    bitAt (out.modify index fun byte => byte ||| (1 : U8) <<< shift) place =
      (bitAt out place || decide (place = 8 * index + shift ∧ place < 8 * out.length)) := by
  rw [bitAt, bitAt, List.getD_eq_getElem?_getD, List.getElem?_modify, List.getD_eq_getElem?_getD]
  by_cases here : index = place / 8
  · simp only [if_pos here]
    rcases Nat.lt_or_ge (place / 8) out.length with inside | past
    · rw [List.getElem?_eq_getElem inside]
      simp only [Option.map_eq_map, Option.map_some, Option.getD_some]
      rw [BitVec.getLsbD_or, show (1 : U8) = 1#8 from rfl, getLsbD_one_shift]
      congr 2
      exact propext (by omega)
    · rw [List.getElem?_eq_none past, decide_eq_false (by omega), Bool.or_false]
      rfl
  · simp only [if_neg here]
    rw [decide_eq_false (by omega), Bool.or_false, Option.map_eq_map, Option.map_id']

theorem length_setPlanes (zz : U64) (out : List U8) (indices : List Nat) :
    (setPlanes planeBytes lane zz out indices).length = out.length := by
  induction indices generalizing out with
  | nil => rfl
  | cons b indices ih =>
      rw [setPlanes, List.foldl_cons, ← setPlanes, ih]
      split
      · rw [List.length_modify]
      · rfl

theorem bitAt_setPlanes (zz : U64) (out : List U8) (indices : List Nat) :
    bitAt (setPlanes planeBytes lane zz out indices) place = true ↔
      bitAt out place = true ∨ ∃ b ∈ indices, zz.getLsbD b = true ∧
        place = 8 * (b * planeBytes) + lane ∧ place < 8 * out.length := by
  induction indices generalizing out with
  | nil => simp [setPlanes]
  | cons b indices ih =>
      have target : 8 * (b * planeBytes + lane / 8) + lane % 8 = 8 * (b * planeBytes) + lane := by
        omega
      rw [setPlanes, List.foldl_cons, ← setPlanes, ih, show (1 : U64) = 1#64 from rfl]
      simp only [shift_and_one_iff (show 0 < 64 by decide)]
      split
      · rename_i set
        rw [bitAt_modify (Nat.mod_lt _ (by decide)), List.length_modify, target]
        simp [set, or_assoc]
      · rename_i clear
        simp [clear]

theorem length_setLanes (out : List U8) (lane : Nat) (values : List I64) :
    (setLanes width planeBytes out lane values).length = out.length := by
  induction values generalizing out lane with
  | nil => rfl
  | cons value values ih => rw [setLanes, ih, length_setPlanes]

theorem bitAt_setLanes (out : List U8) (lane : Nat) (values : List I64) :
    bitAt (setLanes width planeBytes out lane values) place = true ↔
      bitAt out place = true ∨ ∃ index value, values[index]? = some value ∧ ∃ b < width,
        (zigzag value).getLsbD b = true ∧ place = 8 * (b * planeBytes) + (lane + index) ∧
          place < 8 * out.length := by
  induction values generalizing out lane with
  | nil => simp [setLanes]
  | cons value values ih =>
      rw [setLanes, ih, bitAt_setPlanes, length_setPlanes, or_assoc]
      refine or_congr_right ?_
      constructor
      · rintro (⟨b, member, set⟩ | ⟨index, other, found, b, below, bit, same, inside⟩)
        · exact ⟨0, value, rfl, b, List.mem_range.mp member, set⟩
        · exact ⟨index + 1, other, found, b, below, bit, by omega, inside⟩
      · rintro ⟨index, other, found, b, below, bit, same, inside⟩
        cases index with
        | zero =>
            obtain rfl := Option.some.inj found
            exact .inl ⟨b, List.mem_range.mpr below, bit, same, inside⟩
        | succ index => exact .inr ⟨index, other, found, b, below, bit, by omega, inside⟩

theorem plane_place_inj {b c other : Nat} (inner : lane < 8 * planeBytes)
    (inner_other : other < 8 * planeBytes)
    (same : 8 * (b * planeBytes) + lane = 8 * (c * planeBytes) + other) : b = c ∧ lane = other := by
  have flat (b : Nat) : 8 * (b * planeBytes) = (8 * planeBytes) * b := by
    rw [Nat.mul_left_comm, Nat.mul_comm]
  rw [flat, flat] at same
  have quotient := congrArg (· / (8 * planeBytes)) same
  simp only [Nat.mul_add_div (show 0 < 8 * planeBytes by omega), Nat.div_eq_of_lt inner,
    Nat.div_eq_of_lt inner_other, Nat.add_zero] at quotient
  exact ⟨quotient, by rw [quotient] at same; omega⟩

theorem length_transposeTile (chunk : List I64) :
    (transposeTile chunk).length = 1 + bitpackWidth chunk * divCeil chunk.length 8 := by
  rw [transposeTile]
  simp only [List.length_cons]
  split
  · rename_i none
    rw [none, Nat.zero_mul, List.length_nil]
  · rw [length_setLanes, List.length_replicate]
    exact Nat.add_comm _ 1

theorem getLsbD_byteAt (bytes : List U8) (index lane : Nat) :
    (byteAt bytes (index + lane / 8)).getLsbD (lane % 8) = bitAt bytes (8 * index + lane) := by
  rw [bitAt, byteAt, show (8 * index + lane) / 8 = index + lane / 8 by omega,
    show (8 * index + lane) % 8 = lane % 8 by omega]

/-- A lane's code has the bits of its planes. -/
def laneCode (planes : List U8) (width planeBytes lane : Nat) : U64 :=
  (List.range (min width 64)).foldl (fun zz b =>
    if byteAt planes (b * planeBytes + lane / 8) >>> (lane % 8) &&& (1 : U8) = 1 then
      zz ||| (1 : U64) <<< b
    else zz) 0

theorem getLsbD_laneCode (within : place < 64) :
    (laneCode planes width planeBytes lane).getLsbD place =
      (decide (place < width) && bitAt planes (8 * (place * planeBytes) + lane)) := by
  have step := @getLsbD_foldl_or place (fun b =>
    byteAt planes (b * planeBytes + lane / 8) >>> (lane % 8) &&& (1 : U8) = 1) _ (fun b => b)
    (List.range (min width 64)) 0 within
  rw [laneCode, step, show (1 : U8) = 1#8 from rfl]
  simp only [shift_and_one_iff (show 0 < 8 by decide), getLsbD_byteAt, List.mem_range]
  rw [show (0 : U64).getLsbD place = false from BitVec.getLsbD_zero, Bool.false_or,
    Bool.eq_iff_iff, decide_eq_true_eq, Bool.and_eq_true, decide_eq_true_eq]
  constructor
  · rintro ⟨b, below, set, rfl⟩
    exact ⟨by omega, set⟩
  · rintro ⟨below, set⟩
    exact ⟨place, by omega, set, rfl⟩

theorem getLsbD_spread (byte : U8) (within : place < 64) :
    (spread byte).getLsbD place = (decide (place % 8 = 0) && byte.getLsbD (place / 8)) := by
  have step := @getLsbD_foldl_or place (fun k => byte >>> k &&& (1 : U8) = 1) _ (fun k => 8 * k)
    (List.range 8) 0 within
  rw [spread, step, show (1 : U8) = 1#8 from rfl]
  simp only [shift_and_one_iff (show 0 < 8 by decide), List.mem_range]
  rw [show (0 : U64).getLsbD place = false from BitVec.getLsbD_zero, Bool.false_or,
    Bool.eq_iff_iff, decide_eq_true_eq, Bool.and_eq_true, decide_eq_true_eq]
  constructor
  · rintro ⟨k, -, set, rfl⟩
    rw [Nat.mul_div_cancel_left k (by decide)]
    exact ⟨Nat.mul_mod_right 8 k, set⟩
  · rintro ⟨aligned, set⟩
    exact ⟨place / 8, by omega, set, by omega⟩

theorem getLsbD_spreadColumn {groupPlanes : List U8} {count column k j : Nat}
    (few : count ≤ 8) (lane : k < 8) (plane : j < 8) :
    (spreadColumn groupPlanes planeBytes count column).getLsbD (8 * k + j) =
      (decide (j < count) && (byteAt groupPlanes (j * planeBytes + column)).getLsbD k) := by
  rw [spreadColumn]
  induction count with
  | zero =>
      rw [List.range_zero, List.foldl_nil, decide_eq_false (Nat.not_lt_zero j), Bool.false_and]
      exact BitVec.getLsbD_zero
  | succ count ih =>
      rw [List.range_succ, List.foldl_append, List.foldl_cons, List.foldl_nil, BitVec.getLsbD_or,
        ih (by omega), BitVec.getLsbD_shiftLeft, decide_eq_true (show 8 * k + j < 64 by omega)]
      -- The bits of another plane lie at other places of each byte.
      have apart (other : j ≠ count) : (!decide (8 * k + j < count) &&
          (spread (byteAt groupPlanes (count * planeBytes + column))).getLsbD
            (8 * k + j - count)) = false := by
        rw [getLsbD_spread _ (by omega)]
        by_cases early : 8 * k + j < count
        · rw [decide_eq_true early]
          rfl
        · rw [decide_eq_false (show ¬(8 * k + j - count) % 8 = 0 by omega), Bool.false_and,
            Bool.and_false]
      rcases Nat.lt_trichotomy j count with below | rfl | above
      · rw [Bool.true_and, apart (by omega), Bool.or_false, decide_eq_true below,
          decide_eq_true (show j < count + 1 by omega)]
      · rw [decide_eq_false (Nat.lt_irrefl j), decide_eq_true (Nat.lt_succ_self j),
          decide_eq_false (show ¬8 * k + j < j by omega), Nat.add_sub_cancel,
          getLsbD_spread _ (by omega), Nat.mul_mod_right, Nat.mul_div_cancel_left k (by decide)]
        simp
      · rw [Bool.true_and, apart (by omega), Bool.or_false,
          decide_eq_false (show ¬j < count by omega),
          decide_eq_false (show ¬j < count + 1 by omega)]

theorem length_transposeGroup (lanes : List U64) (group : Nat) :
    (transposeGroup planes planeBytes width lanes group).length = lanes.length := by
  rw [transposeGroup, List.length_mapIdx]

theorem byteAt_drop_take {first count index : Nat} (inside : index < count) :
    byteAt ((planes.drop first).take count) index = byteAt planes (first + index) := by
  rw [byteAt, byteAt, List.getD_eq_getElem?_getD, List.getD_eq_getElem?_getD,
    List.getElem?_take_of_lt inside, List.getElem?_drop]

theorem getLsbD_transposeGroup {group l : Nat} (inside : l < lanes.length)
    (short : lanes.length ≤ 8 * planeBytes) (within : place < 64) :
    ((transposeGroup planes planeBytes width lanes group).getD l 0).getLsbD place =
      ((lanes.getD l 0).getLsbD place ||
        (decide (group ≤ place ∧ place < group + 8 ∧ place < width) &&
          bitAt planes (8 * (place * planeBytes) + l))) := by
  rw [List.getD_eq_getElem?_getD, transposeGroup, List.getElem?_mapIdx,
    List.getElem?_eq_getElem inside, List.getD_eq_getElem _ _ inside]
  simp only [Option.map_some, Option.getD_some]
  rw [BitVec.getLsbD_or, BitVec.getLsbD_shiftLeft, decide_eq_true within, Bool.true_and,
    show (0xff : U64) = BitVec.allOnes 64 >>> (64 - 8) from rfl,
    getLsbD_and_mask _ (by decide), BitVec.getLsbD_ushiftRight]
  congr 1
  by_cases here : group ≤ place ∧ place < group + 8
  · have plane : place - group < 8 := by omega
    rw [getLsbD_spreadColumn (show min (group + 8) width - group ≤ 8 by omega)
        (Nat.mod_lt l (by decide)) plane,
      decide_eq_false (show ¬place < group by omega), decide_eq_true plane]
    rcases Nat.lt_or_ge place width with low | high
    · have room : (place - group) * planeBytes + l / 8 <
          (min (group + 8) width - group) * planeBytes := by
        have step : (place - group + 1) * planeBytes ≤
            (min (group + 8) width - group) * planeBytes := Nat.mul_le_mul_right _ (by omega)
        rw [Nat.succ_mul] at step
        omega
      have whole : group * planeBytes + ((place - group) * planeBytes + l / 8) =
          place * planeBytes + l / 8 := by
        rw [← Nat.add_assoc, ← Nat.add_mul, Nat.add_sub_cancel' here.1]
      rw [byteAt_drop_take room, whole, getLsbD_byteAt,
        decide_eq_true (show place - group < min (group + 8) width - group by omega),
        decide_eq_true (show group ≤ place ∧ place < group + 8 ∧ place < width from
          ⟨here.1, here.2, low⟩)]
      rfl
    · rw [decide_eq_false (show ¬place - group < min (group + 8) width - group by omega),
        decide_eq_false (show ¬(group ≤ place ∧ place < group + 8 ∧ place < width) by omega)]
      rfl
  · rw [decide_eq_false (show ¬(group ≤ place ∧ place < group + 8 ∧ place < width) by omega),
      Bool.false_and]
    by_cases early : place < group
    · rw [decide_eq_true early]
      rfl
    · rw [decide_eq_false (show ¬place - group < 8 by omega), Bool.false_and, Bool.and_false]

theorem length_foldl_transposeGroup (groups : List Nat) (lanes : List U64) :
    (groups.foldl (transposeGroup planes planeBytes width) lanes).length = lanes.length := by
  induction groups generalizing lanes with
  | nil => rfl
  | cons group groups ih => rw [List.foldl_cons, ih, length_transposeGroup]

theorem getLsbD_foldl_transposeGroup (groups : List Nat) {l : Nat} (inside : l < lanes.length)
    (short : lanes.length ≤ 8 * planeBytes) (within : place < 64) :
    ((groups.foldl (transposeGroup planes planeBytes width) lanes).getD l 0).getLsbD place =
      ((lanes.getD l 0).getLsbD place ||
        (decide (∃ group ∈ groups, group ≤ place ∧ place < group + 8 ∧ place < width) &&
          bitAt planes (8 * (place * planeBytes) + l))) := by
  induction groups generalizing lanes with
  | nil => simp
  | cons group groups ih =>
      have length_eq := @length_transposeGroup planes planeBytes width lanes group
      rw [List.foldl_cons, ih (by omega) (by omega), getLsbD_transposeGroup inside short within,
        Bool.or_assoc, ← Bool.and_or_distrib_right, ← Bool.decide_or]
      simp only [List.mem_cons, exists_eq_or_imp]

/-- Decoding a whole tile gives each lane as it is decoded alone. -/
theorem transposeTileDecode_eq (width : Nat) (planes : List U8) (len : Nat) :
    transposeTileDecode width planes len =
      (List.range len).map fun lane => transposeLaneDecode planes width len lane := by
  rw [transposeTileDecode]
  split
  · rename_i none
    refine (List.eq_replicate_iff.mpr ⟨by simp, fun value member => ?_⟩).symm
    obtain ⟨lane, -, rfl⟩ := List.mem_map.mp member
    rw [transposeLaneDecode, none, Nat.zero_min, List.range_zero, List.foldl_nil]
    decide
  · simp only []
    set pb := divCeil len 8 with pb_eq
    set padded := if min width 64 * pb ≤ planes.length then planes.take (min width 64 * pb)
      else planes ++ List.replicate (min width 64 * pb - planes.length) 0 with padded_eq
    have short : (List.replicate len (0 : U64)).length ≤ 8 * pb := by
      rw [List.length_replicate, pb_eq, divCeil]
      omega
    -- Padding a truncated tile adds zeros only.
    have same (place : Nat) (needed : place < 8 * (min width 64 * pb)) :
        bitAt padded place = bitAt planes place := by
      rw [padded_eq]
      split
      · rw [bitAt_take, decide_eq_true needed, Bool.true_and]
      · rcases Nat.lt_or_ge place (8 * planes.length) with held | past
        · exact bitAt_append_of_lt held _
        · rw [bitAt_append_of_le past, bitAt_replicate, bitAt_eq_false past]
    refine List.ext_getElem (by simp [length_foldl_transposeGroup]) fun l _ inside => ?_
    rw [List.length_map, List.length_range] at inside
    rw [List.getElem_map, List.getElem_map, List.getElem_range, ← List.getD_eq_getElem _ 0]
    refine congrArg unzigzag (BitVec.eq_of_getLsbD_eq fun place within => ?_)
    rw [getLsbD_foldl_transposeGroup _ (by rwa [List.length_replicate]) short within]
    refine Eq.trans ?_ (getLsbD_laneCode within).symm
    have unset : ((List.replicate len (0 : U64)).getD l 0).getLsbD place = false := by
      rw [List.getD_eq_getElem?_getD, List.getElem?_replicate, if_pos inside, Option.getD_some]
      exact BitVec.getLsbD_zero
    rw [unset, Bool.false_or]
    by_cases low : place < width
    · have grouped : ∃ group ∈ (List.range (divCeil (min width 64) 8)).map fun index => 8 * index,
          group ≤ place ∧ place < group + 8 ∧ place < min width 64 := by
        refine ⟨8 * (place / 8), List.mem_map_of_mem (List.mem_range.mpr ?_), by omega, by omega,
          by omega⟩
        rw [divCeil]
        omega
      rw [decide_eq_true grouped, decide_eq_true low, Bool.true_and, Bool.true_and]
      refine same _ ?_
      have step : (place + 1) * pb ≤ min width 64 * pb := Nat.mul_le_mul_right _ (by omega)
      rw [Nat.succ_mul] at step
      rw [List.length_replicate] at short
      omega
    · rw [decide_eq_false fun grouped => by
          obtain ⟨-, -, -, -, below⟩ := grouped
          omega, decide_eq_false low, Bool.false_and, Bool.false_and]

/-- A tile's lanes are read back from its planes. -/
theorem transpose_reads : Reads transposeHeader transposeTileDecode transposeTile := by
  intro chunk _
  have narrow : bitpackWidth chunk ≤ 64 := widest_le _
  set pb := divCeil chunk.length 8 with pb_eq
  set data := if bitpackWidth chunk = 0 then []
    else setLanes (bitpackWidth chunk) pb (List.replicate (bitpackWidth chunk * pb) 0) 0 chunk
    with data_eq
  have length_data : data.length = bitpackWidth chunk * pb := by
    rw [data_eq]
    split
    · rename_i none
      rw [none, Nat.zero_mul, List.length_nil]
    · rw [length_setLanes, List.length_replicate]
  refine ⟨[widthByte (bitpackWidth chunk)], data, bitpackWidth chunk, ?_, ?_, ?_⟩
  · rw [transposeTile, List.singleton_append]
  · intro before after
    rw [transposeHeader, List.singleton_append, byteAt_append, toNat_widthByte narrow, length_data]
    rfl
  · rw [transposeTileDecode_eq]
    refine List.ext_getElem (by simp) fun l _ inside => ?_
    rw [List.getElem_map, List.getElem_range]
    refine Eq.trans (congrArg unzigzag (BitVec.eq_of_getLsbD_eq fun place within => ?_))
      (unzigzag_zigzag chunk[l])
    refine (getLsbD_laneCode within).trans ?_
    have inner : l < 8 * pb := by
      rw [pb_eq, divCeil]
      omega
    by_cases low : place < bitpackWidth chunk
    · rw [decide_eq_true low, Bool.true_and, data_eq, if_neg (by omega), Bool.eq_iff_iff,
        bitAt_setLanes, bitAt_replicate, List.length_replicate]
      constructor
      · rintro (unset | ⟨index, value, found, b, below, set, same, -⟩)
        · cases unset
        · obtain ⟨held, rfl⟩ := List.getElem?_eq_some_iff.mp found
          rw [Nat.zero_add] at same
          obtain ⟨rfl, rfl⟩ := plane_place_inj inner
            (show index < 8 * pb by rw [pb_eq, divCeil]; omega) same
          exact set
      · intro set
        refine .inr ⟨l, chunk[l], List.getElem?_eq_getElem inside, place, low, set,
          by rw [Nat.zero_add], ?_⟩
        have step : (place + 1) * pb ≤ bitpackWidth chunk * pb := Nat.mul_le_mul_right _ low
        rw [Nat.succ_mul] at step
        change 8 * (place * pb) + l < 8 * (bitpackWidth chunk * pb)
        omega
    · rw [decide_eq_false low, Bool.false_and, getLsbD_of_lt_two_pow
        (lt_two_pow_widest (List.mem_map_of_mem (List.getElem_mem inside))) (Nat.le_of_not_lt low)]

end WeftDb.Codec
