import Mathlib.Data.List.Chain
import Mathlib.Order.Lattice

/-!
# Chunks closed by the next item

Items are collected in order, and an item which closes the chunk before it starts the next one.  The
chunks hold all items in order, and each but the last was closed by the first item of the one after
it.  Where an item closes only a chunk of other keys, sorted items of one key stay in one chunk.
-/

namespace ClosedChunks

variable {Item Key : Type*}

/-- The chunks of some items behind a chunk which is open. -/
def cut (closes : List Item → Item → Bool) : List Item → List Item → List (List Item)
  | [], chunk => if chunk.isEmpty then [] else [chunk]
  | item :: items, chunk =>
      if closes chunk item then chunk :: cut closes items [item]
      else cut closes items (chunk ++ [item])

/-- Whether a chunk was closed by the first item of the next. -/
def Closed (closes : List Item → Item → Bool) (chunk next : List Item) : Prop :=
  ∃ first later, next = first :: later ∧ closes chunk first = true

variable {closes : List Item → Item → Bool}

theorem flatten_cut (items chunk : List Item) :
    (cut closes items chunk).flatten = chunk ++ items := by
  induction items generalizing chunk with
  | nil =>
      rw [cut]
      split
      · next empty =>
          rw [List.isEmpty_iff.mp empty]
          rfl
      · simp
  | cons item items ih =>
      rw [cut]
      split
      · rw [List.flatten_cons, ih, List.singleton_append]
      · rw [ih, List.append_assoc, List.singleton_append]

theorem cut_eq_cons (items : List Item) {chunk : List Item} (filled : chunk ≠ []) :
    ∃ more rest, cut closes items chunk = (chunk ++ more) :: rest := by
  induction items generalizing chunk with
  | nil =>
      refine ⟨[], [], ?_⟩
      rw [cut, if_neg (by simpa using filled), List.append_nil]
  | cons item items ih =>
      rw [cut]
      split
      · exact ⟨[], _, by rw [List.append_nil]⟩
      · obtain ⟨more, rest, same⟩ := ih (show chunk ++ [item] ≠ [] by simp)
        exact ⟨item :: more, rest, by rw [same, List.append_assoc, List.singleton_append]⟩

theorem ne_nil_of_mem_cut (opens : ∀ item, closes [] item = false) (items chunk : List Item) :
    ∀ found ∈ cut closes items chunk, found ≠ [] := by
  induction items generalizing chunk with
  | nil =>
      rw [cut]
      split
      · exact List.forall_mem_nil _
      · next filled => simpa using filled
  | cons item items ih =>
      rw [cut]
      split
      · next closed =>
          refine List.forall_mem_cons.mpr ⟨?_, ih [item]⟩
          rintro rfl
          exact absurd closed (ne_true_of_eq_false (opens item))
      · exact ih _

theorem isChain_cut (items chunk : List Item) :
    (cut closes items chunk).IsChain (Closed closes) := by
  induction items generalizing chunk with
  | nil =>
      rw [cut]
      split
      · exact .nil
      · exact .singleton _
  | cons item items ih =>
      rw [cut]
      split
      · next closed =>
          obtain ⟨more, rest, same⟩ :
              ∃ more rest, cut closes items [item] = ([item] ++ more) :: rest :=
            cut_eq_cons items (List.cons_ne_nil item [])
          have later := ih [item]
          rw [same] at later ⊢
          exact .cons_cons ⟨item, more, rfl, closed⟩ later
      · exact ih _

theorem forall_dropLast_cut {holds : List Item → Prop}
    (closed : ∀ chunk item, closes chunk item = true → holds chunk) (items chunk : List Item) :
    ∀ found ∈ (cut closes items chunk).dropLast, holds found := by
  have chain : (cut closes items chunk).IsChain (Closed closes) := isChain_cut items chunk
  generalize cut closes items chunk = chunks at chain
  induction chunks with
  | nil => exact List.forall_mem_nil _
  | cons first chunks ih =>
      cases chunks with
      | nil => exact List.forall_mem_nil _
      | cons second chunks =>
          obtain ⟨⟨item, -, -, closes⟩, later⟩ := List.isChain_cons_cons.mp chain
          exact List.forall_mem_cons.mpr ⟨closed first item closes, ih later⟩

/-- Whether every item of a chunk has a lower key than those of another. -/
def Below [LT Key] (key : Item → Key) (chunk later : List Item) : Prop :=
  ∀ item ∈ chunk, ∀ other ∈ later, key item < key other

theorem pairwise_cut [LinearOrder Key] {key : Item → Key}
    (closed : ∀ chunk item, closes chunk item = true →
      ∃ front last, chunk = front ++ [last] ∧ key item ≠ key last)
    {items : List Item} (sorted : items.Pairwise fun first second => key first ≤ key second) :
    (cut closes items []).Pairwise (Below key) := by
  have chain : (cut closes items []).IsChain (Closed closes) := isChain_cut items []
  have whole : (cut closes items []).flatten = [] ++ items := flatten_cut items []
  rw [List.nil_append] at whole
  rw [← whole] at sorted
  clear whole
  generalize cut closes items [] = chunks at chain sorted
  induction chunks with
  | nil => exact .nil
  | cons chunk chunks ih =>
      rw [List.flatten_cons] at sorted
      obtain ⟨own, others, between⟩ := List.pairwise_append.mp sorted
      cases chunks with
      | nil => exact List.pairwise_singleton _ _
      | cons next chunks =>
          obtain ⟨⟨first, later, rfl, closes⟩, rest⟩ := List.isChain_cons_cons.mp chain
          obtain ⟨front, last, rfl, different⟩ := closed chunk first closes
          refine .cons (fun other member item held third there => ?_) (ih rest others)
          have inside : third ∈ ((first :: later) :: chunks).flatten :=
            List.mem_flatten_of_mem member there
          -- The first item of the next chunk lies strictly between.
          have step : key last < key first :=
            lt_of_le_of_ne (between last (by simp) first (by simp)) different.symm
          have reach : key item ≤ key last := by
            rcases List.mem_append.mp held with early | same
            · exact (List.pairwise_append.mp own).2.2 item early last (List.mem_singleton_self _)
            · rw [List.mem_singleton.mp same]
          have onward : key first ≤ key third := by
            rw [List.flatten_cons, List.cons_append] at inside others
            rcases List.mem_cons.mp inside with rfl | behind
            · exact le_rfl
            · exact (List.pairwise_cons.mp others).1 third behind
          exact reach.trans_lt (step.trans_le onward)

end ClosedChunks
