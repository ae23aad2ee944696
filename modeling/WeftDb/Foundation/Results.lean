import Mathlib.Data.List.Forall2

/-!
# Computations which may fail

When a sequence of steps over `Except` succeeds: each step does, and a list of them gives its
results in order.
-/

namespace WeftDb

variable {ε α β : Type}
variable {first : Except ε α} {items : List α} {step : α → Except ε β} {results : List β}

/-- Fail unless a condition holds. -/
def require (condition : Prop) [Decidable condition] (failure : ε) : Except ε Unit :=
  if condition then .ok () else .error failure

theorem require_eq_ok {condition : Prop} [Decidable condition] {failure : ε} {done : Unit} :
    require condition failure = .ok done ↔ condition := by
  unfold require
  split <;> simp_all

theorem bind_eq_ok {next : α → Except ε β} {result : β} :
    (first >>= next) = .ok result ↔ ∃ value, first = .ok value ∧ next value = .ok result := by
  cases first <;> simp [Bind.bind, Except.bind]

theorem check_eq_ok {first : Except ε Unit} {next : Except ε β} {result : β} :
    (do first; next) = .ok result ↔ first = .ok () ∧ next = .ok result := by
  cases first <;> simp [Bind.bind, Except.bind]

theorem pure_eq_ok {value result : α} :
    (pure value : Except ε α) = .ok result ↔ value = result := by
  simp [pure, Except.pure]

theorem mapError_eq_ok {failure : ε → β} {result : α} :
    first.mapError failure = .ok result ↔ first = .ok result := by
  cases first <;> simp [Except.mapError]

theorem forM_eq_ok {step : α → Except ε Unit} :
    items.forM step = .ok () ↔ ∀ item ∈ items, step item = .ok () := by
  induction items with
  | nil => simp [pure, Except.pure]
  | cons item items ih =>
      rw [List.forM_eq_forM, List.forM_cons, bind_eq_ok, List.forall_mem_cons, ← ih]
      constructor
      · rintro ⟨⟨⟩, first, later⟩
        exact ⟨first, later⟩
      · rintro ⟨first, later⟩
        exact ⟨(), first, later⟩

theorem mapM_eq_ok :
    items.mapM step = .ok results ↔
      List.Forall₂ (fun item result => step item = .ok result) items results := by
  induction items generalizing results with
  | nil =>
      rw [List.mapM_nil, pure_eq_ok, List.forall₂_nil_left_iff]
      exact eq_comm
  | cons item items ih =>
      simp only [List.mapM_cons, bind_eq_ok, pure_eq_ok, ih, List.forall₂_cons_left_iff]
      constructor
      · rintro ⟨result, done, later, steps, rfl⟩
        exact ⟨result, later, done, steps, rfl⟩
      · rintro ⟨result, later, done, steps, rfl⟩
        exact ⟨result, done, later, steps, rfl⟩

theorem mapM_checked_eq_ok {check : α → Prop} {value : α → β}
    (each : ∀ item result, step item = .ok result ↔ check item ∧ value item = result) :
    items.mapM step = .ok results ↔ (∀ item ∈ items, check item) ∧ items.map value = results := by
  induction items generalizing results with
  | nil => simp [pure, Except.pure]
  | cons item items ih =>
      simp only [List.mapM_cons, bind_eq_ok, pure_eq_ok, ih, each, List.forall_mem_cons,
        List.map_cons]
      constructor
      · rintro ⟨_, ⟨first, rfl⟩, _, ⟨later, rfl⟩, rfl⟩
        exact ⟨⟨first, later⟩, rfl⟩
      · rintro ⟨⟨first, later⟩, rfl⟩
        exact ⟨_, ⟨first, rfl⟩, _, ⟨later, rfl⟩, rfl⟩

theorem forall_mapM_iff (done : items.mapM step = .ok results) {property : β → Prop}
    {condition : α → Prop}
    (each : ∀ item ∈ items, ∀ result, step item = .ok result →
      (property result ↔ condition item)) :
    (∀ result ∈ results, property result) ↔ ∀ item ∈ items, condition item := by
  rw [mapM_eq_ok] at done
  induction done with
  | nil => simp
  | @cons item result items results first later ih =>
      have rest := ih fun other member => each other (List.mem_cons_of_mem _ member)
      simp only [List.forall_mem_cons, rest, each item List.mem_cons_self result first]

theorem exists_mapM_eq_ok (total : ∀ item, ∃ result, step item = .ok result) (items : List α) :
    ∃ results, items.mapM step = .ok results := by
  induction items with
  | nil => exact ⟨[], by rw [List.mapM_nil]; rfl⟩
  | cons item items ih =>
      obtain ⟨result, done⟩ := total item
      obtain ⟨results, later⟩ := ih
      exact ⟨result :: results, by rw [List.mapM_cons, done, later]; rfl⟩

theorem mapM_check_eq_ok {check : α → Except ε Unit} {give : α → β} :
    (items.mapM fun item => do check item; return give item) = .ok results ↔
      (∀ item ∈ items, check item = .ok ()) ∧ items.map give = results := by
  rw [mapM_eq_ok]
  simp only [check_eq_ok, pure_eq_ok]
  rw [List.forall₂_and_left, ← List.forall₂_map_left_iff (R := Eq), List.forall₂_eq_eq_eq]

theorem exists_of_forall₂ {α β : Type*} {related : α → β → Prop} {left : List α} {right : List β}
    (each : List.Forall₂ related left right) {item : α} (member : item ∈ left) :
    ∃ other ∈ right, related item other := by
  induction each with
  | nil => cases member
  | cons own later ih =>
      rcases List.mem_cons.mp member with rfl | behind
      · exact ⟨_, List.mem_cons_self, own⟩
      · obtain ⟨other, inside, found⟩ := ih behind
        exact ⟨other, List.mem_cons_of_mem _ inside, found⟩

theorem exists_forall₂_of_forall {α β : Type*} {related : α → β → Prop} {left : List α}
    (each : ∀ item ∈ left, ∃ other, related item other) :
    ∃ right, List.Forall₂ related left right := by
  induction left with
  | nil => exact ⟨[], .nil⟩
  | cons item left ih =>
      obtain ⟨⟨other, own⟩, later⟩ := List.forall_mem_cons.mp each
      obtain ⟨right, rest⟩ := ih later
      exact ⟨other :: right, .cons own rest⟩

theorem pairwise_of_forall₂ {α β : Type*} {related : α → β → Prop} {apart : β → β → Prop}
    {target : α → α → Prop} {left : List α} {right : List β}
    (each : List.Forall₂ related left right) (pairs : right.Pairwise apart)
    (carry : ∀ {item other partner partner'}, related item partner → related other partner' →
      apart partner partner' → target item other) :
    left.Pairwise target := by
  induction each with
  | nil => exact .nil
  | cons own later ih =>
      obtain ⟨first, rest⟩ := List.pairwise_cons.mp pairs
      refine .cons (fun item member => ?_) (ih rest)
      obtain ⟨partner, inside, found⟩ := exists_of_forall₂ later member
      exact carry own found (first partner inside)

end WeftDb
