import Mathlib

/-!
# Walking a buffer block by block

A list is cut into blocks of one size, and each is encoded behind a header which gives its length.
A decode walks the blocks in order.  So can a decode of a range or of single places, which skips the
blocks that nothing is wanted from; they read what the whole decode gives there.
-/

namespace BlockWalk

variable {Byte State Value : Type}
variable {values : List Value}

/-- The least number of parts of a size which hold a number of things. -/
def divCeil (count size : Nat) : Nat := (count + (size - 1)) / size

/-- A stretch of a buffer; one which the buffer does not hold whole is empty. -/
def slice (bytes : List Byte) (first length : Nat) : List Byte :=
  if first + length ≤ bytes.length then (bytes.drop first).take length else []

/-- The blocks of a list, of one size but for the last. -/
def chunks (size : Nat) (values : List Value) : List (List Value) :=
  if values = [] then []
  else values.take (max size 1) :: chunks size (values.drop (max size 1))
termination_by values.length
decreasing_by
  have filled : 0 < values.length := List.length_pos_of_ne_nil ‹_›
  rw [List.length_drop]
  omega

section Decode

/-- Parse the header at a place, for a block of a length: how long it is, how long the block's data
are, and what is needed to decode them. -/
abbrev NextBlock (Byte State : Type) := List Byte → Nat → Nat → Nat × Nat × State

variable (nextBlock : NextBlock Byte State)

section Full

variable (decodeBlock : State → List Byte → Nat → List Value)

/-- Decode the blocks from a place on. -/
def decodeFrom (bytes : List Byte) (block pos remaining : Nat) : List Value :=
  if remaining = 0 then []
  else
    let blockLen := min remaining (max block 1)
    let (headerLen, dataLen, state) := nextBlock bytes pos blockLen
    decodeBlock state (slice bytes (pos + headerLen) dataLen) blockLen ++
      decodeFrom bytes block (pos + headerLen + dataLen) (remaining - blockLen)
termination_by remaining
decreasing_by omega

def decode (bytes : List Byte) (block count : Nat) : List Value :=
  decodeFrom nextBlock decodeBlock bytes block 0 count

end Full

section Range

variable (decodeSpan : State → List Byte → Nat → Nat → Nat → List Value)

/-- Decode a range from the block at a place on. -/
def decodeRangeFrom (bytes : List Byte) (block count start len pos idx : Nat) : List Value :=
  let finish := min (start + len) count
  if idx < finish then
    let blockLen := min (max block 1) (count - idx)
    let (headerLen, dataLen, state) := nextBlock bytes pos blockLen
    let data := slice bytes (pos + headerLen) dataLen
    let decoded :=
      if start < idx + blockLen then
        decodeSpan state data blockLen (start - idx) (min (finish - idx) blockLen)
      else []
    decoded ++
      decodeRangeFrom bytes block count start len (pos + headerLen + dataLen) (idx + blockLen)
  else []
termination_by count - idx
decreasing_by omega

def decodeRange (bytes : List Byte) (block count start len : Nat) : List Value :=
  if min (start + len) count ≤ start then []
  else decodeRangeFrom nextBlock decodeSpan bytes block count start len 0 0

end Range

section Gather

variable (decodeLanes : State → List Byte → Nat → List Nat → List Value)

/-- The positions which address a value, in the order of what they address. -/
def gatherOrder (count : Nat) (indices : List Nat) : List Nat :=
  ((List.range indices.length).filter fun p => indices.getD p 0 < count).insertionSort
    fun p q => indices.getD p 0 ≤ indices.getD q 0

/-- Read the positions left from the block at a place on. -/
def gatherFrom (bytes : List Byte) (block count : Nat) (indices order : List Nat) (pos idx : Nat)
    (out : List (Option Value)) : List (Option Value) :=
  -- Each index left is below the count, so none is left when the blocks end.
  if order = [] ∨ count ≤ idx then out
  else
    let blockLen := min (max block 1) (count - idx)
    let (headerLen, dataLen, state) := nextBlock bytes pos blockLen
    let run := order.takeWhile fun p => indices.getD p 0 < idx + blockLen
    let lanes := run.map fun p => indices.getD p 0 - idx
    let data := slice bytes (pos + headerLen) dataLen
    let read := run.zip (decodeLanes state data blockLen lanes)
    gatherFrom bytes block count indices (order.drop run.length) (pos + headerLen + dataLen)
      (idx + blockLen) (read.foldl (fun out entry => out.set entry.1 (some entry.2)) out)
termination_by count - idx
decreasing_by omega

def gatherWalk (bytes : List Byte) (block count : Nat) (indices : List Nat) :
    List (Option Value) :=
  gatherFrom nextBlock decodeLanes bytes block count indices (gatherOrder count indices) 0 0
    (List.replicate indices.length none)

end Gather

end Decode

/-- Encode the blocks of a list one after the other. -/
def encode (encodeBlock : List Value → List Byte) (block : Nat) (values : List Value) :
    List Byte :=
  (chunks block values).flatMap encodeBlock

theorem slice_append (before data after : List Byte) :
    slice (before ++ (data ++ after)) before.length data.length = data := by
  rw [slice, if_pos (by simp), List.drop_left, List.take_left]

theorem chunks_nil (size : Nat) : chunks size ([] : List Value) = [] := by
  rw [chunks, if_pos rfl]

theorem chunks_of_ne_nil (filled : values ≠ []) (size : Nat) :
    chunks size values =
      values.take (max size 1) :: chunks size (values.drop (max size 1)) := by
  rw [chunks, if_neg filled]

theorem ne_nil_of_mem_chunks {chunk : List Value} {size : Nat}
    (member : chunk ∈ chunks size values) : chunk ≠ [] := by
  induction values using chunks.induct size with
  | case1 =>
      rw [chunks_nil] at member
      cases member
  | case2 values filled ih =>
      rw [chunks_of_ne_nil filled] at member
      rcases List.mem_cons.mp member with rfl | member
      · intro none
        rcases List.take_eq_nil_iff.mp none with zero | none
        · omega
        · exact filled none
      · exact ih member

theorem length_encode (encodeBlock : List Value → List Byte) (block : Nat)
    (values : List Value) :
    (encode encodeBlock block values).length =
      ((chunks block values).map fun chunk => (encodeBlock chunk).length).sum := by
  rw [encode, List.length_flatMap]

/-- Whether a block reads back from what encodes it, wherever this lies. -/
def Reads (nextBlock : NextBlock Byte State)
    (decodeBlock : State → List Byte → Nat → List Value)
    (encodeBlock : List Value → List Byte) : Prop :=
  ∀ chunk : List Value, chunk ≠ [] → ∃ header data state, encodeBlock chunk = header ++ data ∧
    (∀ before after, nextBlock (before ++ (header ++ after)) before.length chunk.length =
      (header.length, data.length, state)) ∧
    decodeBlock state data chunk.length = chunk

section RoundTrip

variable {nextBlock : NextBlock Byte State} {decodeBlock : State → List Byte → Nat → List Value}
  {encodeBlock : List Value → List Byte}

theorem decodeFrom_encode (reads : Reads nextBlock decodeBlock encodeBlock) (block : Nat)
    (values : List Value) (before : List Byte) :
    decodeFrom nextBlock decodeBlock (before ++ encode encodeBlock block values) block
      before.length values.length = values := by
  induction values using chunks.induct block generalizing before with
  | case1 => rw [decodeFrom, List.length_nil, if_pos rfl]
  | case2 values filled ih =>
      have some : values.length ≠ 0 := (List.length_pos_of_ne_nil filled).ne'
      set chunk := values.take (max block 1) with chunk_eq
      have chunk_filled : chunk ≠ [] :=
        ne_nil_of_mem_chunks (chunks_of_ne_nil filled block ▸ List.mem_cons_self)
      obtain ⟨header, data, state, encoded, parses, decodes⟩ := reads chunk chunk_filled
      have length_chunk : min values.length (max block 1) = chunk.length := by
        rw [chunk_eq, List.length_take, Nat.min_comm]
      have split : encode encodeBlock block values =
          header ++ (data ++ encode encodeBlock block (values.drop (max block 1))) := by
        rw [encode, chunks_of_ne_nil filled, List.flatMap_cons, ← chunk_eq, encoded,
          List.append_assoc, ← encode]
      have rest : values.length - chunk.length = (values.drop (max block 1)).length := by
        rw [List.length_drop, ← length_chunk]
        omega
      have read := ih (before ++ header ++ data)
      have data_eq := slice_append (before ++ header) data
        (encode encodeBlock block (values.drop (max block 1)))
      simp only [List.append_assoc, List.length_append, ← Nat.add_assoc] at read data_eq
      rw [decodeFrom, if_neg some, length_chunk, split]
      simp only [parses, data_eq, decodes, rest, read]
      rw [chunk_eq, List.take_append_drop]

theorem decode_encode (reads : Reads nextBlock decodeBlock encodeBlock) (block : Nat)
    (values : List Value) :
    decode nextBlock decodeBlock (encode encodeBlock block values) block values.length = values :=
  decodeFrom_encode reads block values []

end RoundTrip

section RandomAccess

variable {nextBlock : NextBlock Byte State} {decodeBlock : State → List Byte → Nat → List Value}
  {bytes : List Byte} {block count : Nat}
variable {decodeSpan : State → List Byte → Nat → Nat → Nat → List Value}
  {value : Nat → Option Value} {order indices : List Nat}
  {decodeLanes : State → List Byte → Nat → List Nat → List Value}

theorem decodeFrom_zero (pos : Nat) :
    decodeFrom nextBlock decodeBlock bytes block pos 0 = [] := by
  rw [decodeFrom, if_pos rfl]

theorem decodeFrom_of_lt {pos idx : Nat} (more : idx < count) {headerLen dataLen : Nat}
    {state : State} (parses : nextBlock bytes pos (min (max block 1) (count - idx)) =
      (headerLen, dataLen, state)) :
    decodeFrom nextBlock decodeBlock bytes block pos (count - idx) =
      decodeBlock state (slice bytes (pos + headerLen) dataLen)
          (min (max block 1) (count - idx)) ++
        decodeFrom nextBlock decodeBlock bytes block (pos + headerLen + dataLen)
          (count - (idx + min (max block 1) (count - idx))) := by
  have rest : count - (idx + min (max block 1) (count - idx)) =
      count - idx - min (max block 1) (count - idx) := by omega
  rw [decodeFrom, if_neg (by omega), Nat.min_comm (count - idx), rest]
  simp only [parses]

theorem length_decodeFrom
    (full : ∀ state data n, (decodeBlock state data n).length = n) (remaining : Nat) (pos : Nat) :
    (decodeFrom nextBlock decodeBlock bytes block pos remaining).length = remaining := by
  induction remaining using Nat.strongRecOn generalizing pos with
  | ind remaining ih =>
      rcases Nat.eq_zero_or_pos remaining with rfl | some
      · rw [decodeFrom_zero, List.length_nil]
      · cases parses : nextBlock bytes pos (min (max block 1) remaining) with
        | mk headerLen rest =>
            obtain ⟨dataLen, state⟩ := rest
            have step := @decodeFrom_of_lt Byte State Value nextBlock decodeBlock bytes block
              remaining pos 0 some headerLen dataLen state parses
            rw [Nat.sub_zero, Nat.zero_add] at step
            rw [step, List.length_append, full, ih _ (by omega)]
            omega

theorem take_min_length (count : Nat) :
    values.take (min count values.length) = values.take count := by
  rw [Nat.min_comm, ← List.take_take, List.take_of_length_le (List.length_take_le' _ _)]

section

variable (full : ∀ state data n, (decodeBlock state data n).length = n)
  (spans : ∀ state data n lo hi, lo ≤ hi → hi ≤ n →
    decodeSpan state data n lo hi = ((decodeBlock state data n).take hi).drop lo)

include full spans

theorem decodeRangeFrom_eq {start len : Nat} (ahead : start < min (start + len) count)
    (pos idx : Nat) :
    decodeRangeFrom nextBlock decodeSpan bytes block count start len pos idx =
      ((decodeFrom nextBlock decodeBlock bytes block pos (count - idx)).take
        (min (start + len) count - idx)).drop (start - idx) := by
  induction pos, idx using decodeRangeFrom.induct nextBlock decodeSpan bytes block count start len with
  | case1 pos idx finish more blockLen headerLen dataLen state parses ih =>
      rw [decodeRangeFrom, if_pos more]
      simp only [blockLen] at parses ih
      simp only [parses]
      rw [ih, decodeFrom_of_lt (by omega) parses]
      set n := min (max block 1) (count - idx)
      set decoded := decodeBlock state (slice bytes (pos + headerLen) dataLen) n with decoded_eq
      have length_decoded : decoded.length = n := full _ _ _
      have positive : 0 < n := by omega
      rw [List.take_append, List.drop_append, length_decoded, List.length_take, length_decoded]
      congr 1
      · split
        · rename_i overlaps
          rw [spans _ _ _ _ _ (by omega) (Nat.min_le_right _ _), ← decoded_eq,
            ← length_decoded, take_min_length]
        · refine (List.drop_eq_nil_of_le ?_).symm
          rw [List.length_take]
          omega
      · rcases Nat.le_total (min (start + len) count - idx) n with within | beyond
        · have spent : min (start + len) count - (idx + n) = 0 := by omega
          have spent_here : min (start + len) count - idx - n = 0 := by omega
          rw [spent, spent_here, List.take_zero, List.drop_nil, List.drop_nil]
        · rw [Nat.min_eq_right beyond, Nat.sub_sub, Nat.sub_sub]
  | case2 pos idx finish done =>
      rw [decodeRangeFrom, if_neg done, Nat.sub_eq_zero_of_le (Nat.le_of_not_lt done)]
      simp

theorem decodeRange_eq (start len : Nat) :
    decodeRange nextBlock decodeSpan bytes block count start len =
      ((decode nextBlock decodeBlock bytes block count).drop start).take len := by
  have length_whole : (decode nextBlock decodeBlock bytes block count).length = count :=
    length_decodeFrom full count 0
  rw [decodeRange]
  split
  · rename_i empty
    rcases Nat.lt_or_ge start count with within | beyond
    · rw [show len = 0 by omega, List.take_zero]
    · rw [List.drop_eq_nil_of_le (length_whole.trans_le beyond), List.take_nil]
  · rename_i ahead
    have cut := @take_min_length _ (decode nextBlock decodeBlock bytes block count) (start + len)
    rw [length_whole] at cut
    rw [decodeRangeFrom_eq full spans (Nat.lt_of_not_le ahead), Nat.sub_zero, Nat.sub_zero,
      Nat.sub_zero, ← decode, cut, List.drop_take, Nat.add_sub_cancel_left]

end

/-- Whether the lanes of a block are read as the whole block has them. -/
def ReadsLanes (decodeBlock : State → List Byte → Nat → List Value)
    (decodeLanes : State → List Byte → Nat → List Nat → List Value) : Prop :=
  ∀ state data n lanes, (∀ lane ∈ lanes, lane < n) →
    (decodeLanes state data n lanes).map some =
      lanes.map fun lane => (decodeBlock state data n)[lane]?

/-- Set each of some positions to what belongs there. -/
def place (order : List Nat) (value : Nat → Option Value) (out : List (Option Value)) :
    List (Option Value) :=
  order.foldl (fun out p => out.set p (value p)) out

theorem length_place (order : List Nat) (value : Nat → Option Value) (out : List (Option Value)) :
    (place order value out).length = out.length := by
  induction order generalizing out with
  | nil => rfl
  | cons p order ih =>
      rw [place, List.foldl_cons, ← place, ih, List.length_set]

theorem getElem?_place (order : List Nat) (value : Nat → Option Value)
    (out : List (Option Value)) (i : Nat) (within : i < out.length) :
    (place order value out)[i]? = if i ∈ order then some (value i) else out[i]? := by
  induction order generalizing out with
  | nil => rw [if_neg List.not_mem_nil, place, List.foldl_nil]
  | cons p order ih =>
      rw [place, List.foldl_cons, ← place, ih _ (by rwa [List.length_set])]
      by_cases later : i ∈ order
      · rw [if_pos later, if_pos (List.mem_cons_of_mem p later)]
      · rw [if_neg later, List.getElem?_set]
        by_cases same : p = i
        · rw [if_pos same, if_pos (same ▸ within), if_pos (same ▸ List.mem_cons_self), same]
        · rw [if_neg same, if_neg]
          exact fun member => (List.mem_cons.mp member).elim (same ·.symm) later

theorem foldl_zip_eq_place {run : List Nat} (read : values.map some = run.map value)
    (out : List (Option Value)) :
    (run.zip values).foldl (fun out entry => out.set entry.1 (some entry.2)) out =
      place run value out := by
  induction run generalizing values out with
  | nil => rfl
  | cons p run ih =>
      cases values with
      | nil => cases read
      | cons first values =>
          rw [List.map_cons, List.map_cons, List.cons.injEq] at read
          rw [List.zip_cons_cons, List.foldl_cons, ih read.2, place, place, List.foldl_cons,
            read.1]

theorem place_congr {other : Nat → Option Value} (same : ∀ p ∈ order, value p = other p)
    (out : List (Option Value)) : place order value out = place order other out := by
  induction order generalizing out with
  | nil => rfl
  | cons p order ih =>
      obtain ⟨first, rest⟩ := List.forall_mem_cons.mp same
      rw [place, place, List.foldl_cons, List.foldl_cons, first]
      exact ih rest _

theorem le_of_mem_dropWhile {key : Nat → Nat} {order : List Nat} {bound p : Nat}
    (sorted : order.Pairwise fun p q => key p ≤ key q)
    (member : p ∈ order.dropWhile fun p => decide (key p < bound)) : bound ≤ key p := by
  induction order with
  | nil => cases member
  | cons first order ih =>
      obtain ⟨least, rest⟩ := List.pairwise_cons.mp sorted
      by_cases below : key first < bound
      · rw [List.dropWhile_cons, if_pos (decide_eq_true below)] at member
        exact ih rest member
      · rw [List.dropWhile_cons, if_neg fun above => below (of_decide_eq_true above)] at member
        rcases List.mem_cons.mp member with rfl | later
        · exact Nat.le_of_not_lt below
        · exact (Nat.le_of_not_lt below).trans (least p later)

theorem gatherFrom_eq (full : ∀ state data n, (decodeBlock state data n).length = n)
    (lanes : ReadsLanes decodeBlock decodeLanes) (pos idx : Nat)
    (sorted : order.Pairwise fun p q => indices.getD p 0 ≤ indices.getD q 0)
    (ahead : ∀ p ∈ order, idx ≤ indices.getD p 0 ∧ indices.getD p 0 < count)
    (out : List (Option Value)) :
    gatherFrom nextBlock decodeLanes bytes block count indices order pos idx out =
      place order (fun p => (decodeFrom nextBlock decodeBlock bytes block pos
        (count - idx))[indices.getD p 0 - idx]?) out := by
  induction order, pos, idx, out using gatherFrom.induct nextBlock decodeLanes bytes block count
    indices with
  | case1 order pos idx out done =>
      rw [gatherFrom, if_pos done]
      rcases done with rfl | beyond
      · rfl
      · have none : order = [] := List.eq_nil_iff_forall_not_mem.mpr fun p member => by
          have := ahead p member
          omega
        rw [none]
        rfl
  | case2 order pos idx out more blockLen headerLen dataLen state parses run laneList data read
      ih =>
      rw [gatherFrom, if_neg more]
      have inside : idx < count := by omega
      simp only [blockLen] at parses
      simp only [parses]
      have split : run ++ order.dropWhile (fun p => decide (indices.getD p 0 < idx + blockLen)) =
          order := List.takeWhile_append_dropWhile
      have dropped : order.drop run.length =
          order.dropWhile fun p => decide (indices.getD p 0 < idx + blockLen) := by
        conv_lhs => rw [← split]
        exact List.drop_left
      have whole := @decodeFrom_of_lt Byte State Value nextBlock decodeBlock bytes block count pos
        idx inside headerLen dataLen state parses
      have early : ∀ p ∈ run, idx ≤ indices.getD p 0 ∧ indices.getD p 0 < idx + blockLen :=
        fun p member => ⟨(ahead p (List.takeWhile_subset _ member)).1,
          by simpa using List.mem_takeWhile_imp member⟩
      have late : ∀ p ∈ order.drop run.length,
          idx + blockLen ≤ indices.getD p 0 ∧ indices.getD p 0 < count := fun p member =>
        ⟨@le_of_mem_dropWhile (fun p => indices.getD p 0) order _ p sorted (dropped ▸ member),
          (ahead p (List.mem_of_mem_drop member)).2⟩
      have here : place run (fun p => (decodeFrom nextBlock decodeBlock bytes block pos
          (count - idx))[indices.getD p 0 - idx]?) out =
            read.foldl (fun out entry => out.set entry.1 (some entry.2)) out := by
        refine (foldl_zip_eq_place ?_ out).symm
        rw [lanes _ _ _ _ fun lane member => ?_, List.map_map]
        · refine List.map_congr_left fun p member => ?_
          have within := early p member
          rw [whole, List.getElem?_append_left (by rw [full]; omega)]
          rfl
        · obtain ⟨p, in_run, rfl⟩ := List.mem_map.mp member
          have within := early p in_run
          omega
      refine (ih (sorted.sublist (List.drop_sublist _ _)) late).trans ?_
      conv_rhs => rw [← split, ← dropped, place, List.foldl_append, ← place, ← place, here]
      refine place_congr (fun p member => ?_) _
      have beyond := late p member
      rw [whole, List.getElem?_append_right (by rw [full]; omega), full]
      congr 1
      omega

theorem mem_gatherOrder {p : Nat} :
    p ∈ gatherOrder count indices ↔ p < indices.length ∧ indices.getD p 0 < count := by
  rw [gatherOrder, List.mem_insertionSort, List.mem_filter, List.mem_range, decide_eq_true_eq]

theorem gatherWalk_eq (full : ∀ state data n, (decodeBlock state data n).length = n)
    (lanes : ReadsLanes decodeBlock decodeLanes) (indices : List Nat) :
    gatherWalk nextBlock decodeLanes bytes block count indices =
      indices.map fun index => (decode nextBlock decodeBlock bytes block count)[index]? := by
  have length_whole : (decode nextBlock decodeBlock bytes block count).length = count :=
    length_decodeFrom full count 0
  have sorted : (gatherOrder count indices).Pairwise fun p q =>
      indices.getD p 0 ≤ indices.getD q 0 := List.pairwise_insertionSort _ _
  rw [gatherWalk, gatherFrom_eq full lanes 0 0 sorted
    fun p member => ⟨Nat.zero_le _, (mem_gatherOrder.mp member).2⟩]
  refine List.ext_getElem? fun i => ?_
  rcases Nat.lt_or_ge i indices.length with within | past
  · rw [getElem?_place _ _ _ _ (by rwa [List.length_replicate]), List.getElem?_map,
      List.getElem?_eq_getElem within, Option.map_some, List.getElem?_replicate, if_pos within,
      List.getD_eq_getElem _ _ within, Nat.sub_zero, Nat.sub_zero, ← decode]
    split
    · rfl
    · rename_i out_of_range
      rw [mem_gatherOrder, List.getD_eq_getElem _ _ within] at out_of_range
      rw [List.getElem?_eq_none]
      rw [length_whole]
      exact Nat.le_of_not_lt fun below => out_of_range ⟨within, below⟩
  · rw [List.getElem?_eq_none (by rwa [length_place, List.length_replicate]),
      List.getElem?_eq_none (by rwa [List.length_map])]

end RandomAccess

end BlockWalk
