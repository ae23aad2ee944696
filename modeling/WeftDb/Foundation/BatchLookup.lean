import Mathlib.Data.List.Forall2
import Mathlib.Data.List.Induction

/-!
# Many questions answered in one pass

A pass over some sources which answers a list of questions at once answers each as a pass for it
alone does, whether a later source overrides an earlier one or the first answer stays.  A source may
be left out for all questions when it answers none of them, and an answer may be put in its place by
its index.
-/

namespace BatchLookup

variable {Question Answer Source Place : Type*}
variable {lookup : Source → Option Answer} {sources : List Source} {Origin : Type*}
  {answer : Answer}

/-- Write answers at their indices. -/
def scatter (answers : List (Nat × Option Answer)) (out : List (Option Answer)) :
    List (Option Answer) :=
  answers.foldl (fun out answer => out.set answer.1 answer.2) out

theorem scatter_from (place : Question → Option Place) (read : Place → Option Answer)
    (questions : List Question) (done : List (Option Answer)) :
    scatter ((questions.zipIdx done.length).filterMap fun question =>
        (place question.1).map fun found => (question.2, read found))
      (done ++ List.replicate questions.length none) =
        done ++ questions.map fun question => (place question).bind read := by
  induction questions generalizing done with
  | nil => simp [scatter]
  | cons question questions ih =>
      have onward (answer : Option Answer) := ih (done ++ [answer])
      simp only [List.length_append, List.length_singleton, List.append_assoc,
        List.singleton_append] at onward
      rw [List.zipIdx_cons, List.length_cons, List.replicate_succ, List.map_cons]
      rcases found : place question with _ | here
      · rw [List.filterMap_cons_none (by rw [found]; rfl)]
        exact onward none
      · rw [List.filterMap_cons_some (by rw [found]; rfl), Option.bind_some, scatter,
          List.foldl_cons, List.set_append_right _ _ (Nat.le_refl _), Nat.sub_self, List.set_cons_zero]
        exact onward (read here)

theorem scatter_eq_map (place : Question → Option Place) (read : Place → Option Answer)
    (questions : List Question) :
    scatter (questions.zipIdx.filterMap fun question =>
        (place question.1).map fun found => (question.2, read found))
      (List.replicate questions.length none) =
        questions.map fun question => (place question).bind read :=
  scatter_from place read questions []

/-- Put the answers which there are in place of the earlier ones. -/
def override (found hits : List (Option Answer)) : List (Option Answer) :=
  List.zipWith (fun slot hit => hit.or slot) found hits

/-- The last answer of the sources. -/
def lastAnswer (lookup : Source → Option Answer) (sources : List Source) : Option Answer :=
  sources.foldl (fun found source => (lookup source).or found) none

theorem foldl_override (lookup : Source → Question → Option Answer) (sources : List Source)
    (questions : List Question) :
    sources.foldl (fun found source => override found (questions.map (lookup source)))
        (List.replicate questions.length none) =
      questions.map fun question => lastAnswer (lookup · question) sources := by
  induction sources using List.reverseRecOn with
  | nil => simp [lastAnswer, List.map_const']
  | append_singleton sources source ih =>
      rw [List.foldl_append, List.foldl_cons, List.foldl_nil, ih, override, List.zipWith_map,
        List.zipWith_self]
      refine List.map_congr_left fun question _ => ?_
      rw [lastAnswer, lastAnswer, List.foldl_append]
      rfl

theorem lastAnswer_concat (lookup : Source → Option Answer) (sources : List Source)
    (source : Source) :
    lastAnswer lookup (sources ++ [source]) = (lookup source).or (lastAnswer lookup sources) := by
  rw [lastAnswer, List.foldl_append]
  rfl

theorem lastAnswer_filter {keep : Source → Bool}
    (silent : ∀ source ∈ sources, keep source = false → lookup source = none) :
    lastAnswer lookup (sources.filter keep) = lastAnswer lookup sources := by
  induction sources using List.reverseRecOn with
  | nil => rfl
  | append_singleton sources source ih =>
      have rest := ih fun other member => silent other (List.mem_append_left _ member)
      rw [List.filter_append, lastAnswer_concat, ← rest]
      rcases kept : keep source with _ | _
      · rw [silent source (by simp) kept, Option.none_or, List.filter_cons_of_neg (by simp [kept]),
          List.filter_nil, List.append_nil]
      · rw [List.filter_cons_of_pos (by simp [kept]), List.filter_nil, lastAnswer_concat]

theorem lastAnswer_map (lookup : Source → Option Answer) (source : Origin → Source)
    (origins : List Origin) :
    lastAnswer lookup (origins.map source) = lastAnswer (fun origin => lookup (source origin))
      origins :=
  List.foldl_map ..

theorem lastAnswer_congr {ask : Origin → Option Answer} {origins : List Origin}
    (same : List.Forall₂ (fun source origin => lookup source = ask origin) sources origins) :
    lastAnswer lookup sources = lastAnswer ask origins := by
  have answers : sources.map lookup = origins.map ask := by
    rw [← List.forall₂_eq_eq_eq, List.forall₂_map_left_iff, List.forall₂_map_right_iff]
    exact same
  calc
    lastAnswer lookup sources = lastAnswer id (sources.map lookup) :=
      (lastAnswer_map id lookup sources).symm
    _ = lastAnswer id (origins.map ask) := by rw [answers]
    _ = lastAnswer ask origins := lastAnswer_map id ask origins

theorem lastAnswer_eq_findSome?
    (alone : sources.Pairwise fun first second => lookup first = none ∨ lookup second = none) :
    lastAnswer lookup sources = sources.findSome? lookup := by
  induction sources using List.reverseRecOn with
  | nil => rfl
  | append_singleton sources source ih =>
      obtain ⟨earlier, -, apart⟩ := List.pairwise_append.mp alone
      rw [lastAnswer_concat, ih earlier, List.findSome?_append]
      rcases found : lookup source with _ | answer
      · simp [found]
      · have silent : sources.findSome? lookup = none :=
          List.findSome?_eq_none_iff.mpr fun other member =>
            (apart other member source (by simp)).resolve_right (by simp [found])
        rw [silent]
        simp [found]

/-- A source is the last of the sources with an answer. -/
def IsLast (lookup : Source → Option Answer) (sources : List Source) (source : Source)
    (answer : Answer) : Prop :=
  ∃ before after, sources = before ++ source :: after ∧ lookup source = some answer ∧
    ∀ later ∈ after, lookup later = none

theorem lastAnswer_eq_some_iff :
    lastAnswer lookup sources = some answer ↔ ∃ source, IsLast lookup sources source answer := by
  constructor
  · intro found
    induction sources using List.reverseRecOn with
    | nil => cases found
    | append_singleton sources source ih =>
        rw [lastAnswer_concat] at found
        rcases here : lookup source with _ | answer'
        · rw [here, Option.none_or] at found
          obtain ⟨earlier, before, after, rfl, answered, silent⟩ := ih found
          refine ⟨earlier, before, after ++ [source], by simp, answered, fun later member => ?_⟩
          rcases List.mem_append.mp member with member | member
          · exact silent later member
          · exact List.mem_singleton.mp member ▸ here
        · rw [here, Option.some_or] at found
          exact ⟨source, sources, [], rfl, here.trans found, by simp⟩
  · rintro ⟨source, before, after, rfl, answered, silent⟩
    induction after using List.reverseRecOn with
    | nil => rw [lastAnswer_concat, answered, Option.some_or]
    | append_singleton after later ih =>
        rw [← List.cons_append, ← List.append_assoc, lastAnswer_concat,
          silent later (by simp), Option.none_or]
        exact ih fun other member => silent other (List.mem_append_left _ member)

theorem lastAnswer_eq_none_iff :
    lastAnswer lookup sources = none ↔ ∀ source ∈ sources, lookup source = none := by
  induction sources using List.reverseRecOn with
  | nil => simp [lastAnswer]
  | append_singleton sources source ih =>
      rw [lastAnswer_concat, Option.or_eq_none_iff, ih, List.forall_mem_append, and_comm]
      simp

/-- A slot which is filled once. -/
def fill (slot : Option Answer × Bool) (hit : Option Answer) : Option Answer × Bool :=
  if !slot.2 && hit.isSome then (hit, true) else slot

/-- The slots whose flag tells that they are filled. -/
def flagged (slot : Option Answer) : Option Answer × Bool := (slot, slot.isSome)

theorem fill_flagged (slot hit : Option Answer) : fill (flagged slot) hit = flagged (slot.or hit) := by
  cases slot <;> cases hit <;> rfl

/-- One pass of a source over the slots, unless it is left out. -/
def fillFrom (answers : Source → List Question → List (Option Answer))
    (opens : Source → List (Question × Bool) → Bool) (questions : List Question)
    (slots : List (Option Answer × Bool)) (source : Source) : List (Option Answer × Bool) :=
  if opens source (questions.zip (slots.map Prod.snd)) then
    List.zipWith fill slots (answers source questions)
  else slots

theorem foldl_fillFrom {answers : Source → List Question → List (Option Answer)}
    {lookup : Source → Question → Option Answer} {opens : Source → List (Question × Bool) → Bool}
    {questions : List Question}
    (answered : ∀ source ∈ sources, ∀ asked, opens source asked = true →
      answers source questions = questions.map (lookup source))
    (silent : ∀ source ∈ sources, ∀ asked, opens source asked = false →
      ∀ question, (question, false) ∈ asked → lookup source question = none) :
    sources.foldl (fillFrom answers opens questions) (questions.map fun _ => (none, false)) =
      questions.map fun question => flagged (sources.findSome? (lookup · question)) := by
  induction sources using List.reverseRecOn with
  | nil => rfl
  | append_singleton sources source ih =>
      have rest := ih (fun other member => answered other (List.mem_append_left _ member))
        fun other member => silent other (List.mem_append_left _ member)
      rw [List.foldl_append, List.foldl_cons, List.foldl_nil, rest, fillFrom]
      split
      · next opened =>
          rw [answered source (by simp) _ opened, List.zipWith_map, List.zipWith_self]
          refine List.map_congr_left fun question _ => ?_
          rw [fill_flagged, List.findSome?_append]
          simp
      · next closed =>
          refine List.map_congr_left fun question member => ?_
          rw [List.findSome?_append]
          rcases found : sources.findSome? (lookup · question) with _ | answer
          · have unanswered : lookup source question = none := by
              refine silent source (by simp) _ (eq_false_of_ne_true closed) question ?_
              rw [List.map_map, ← List.map_prod_left_eq_zip]
              exact List.mem_map.mpr ⟨question, member, by simp [found, flagged]⟩
            simp [unanswered]
          · rfl

end BatchLookup
