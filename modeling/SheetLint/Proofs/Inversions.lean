import Mathlib.Data.List.Chain
import Mathlib.Data.Nat.Choose.Basic
import SheetLint.Proofs.PropertyNames

/-!
# Names out of order

Only names with a place in the canonical order are ever compared.  This module measures how far
some names are from that order, and says when there is nothing to say about them.

Main results:

- Definition `PropertyOrder.inversions` counts the pairs of places in the wrong order.  Theorem
  `PropertyOrder.inversions_exchangeAt` says that exchanging two neighbouring names that descend
  takes away exactly one such pair, and `PropertyOrder.inversions_le` bounds their number.
- Definition `PropertyOrder.runs` are the maximal runs of names with a place.  Theorem
  `PropertyOrder.advice_eq_nil_iff` says that there is no advice exactly if each run is in order,
  and `PropertyOrder.advice_eq_nil_iff_of_append` that all names are then in order if none
  without a place stands between them.
-/

namespace SheetLint.PropertyOrder

/-! ## Places -/

/-- The places of the names that have one. -/
def places (names : List (List Char)) : List Nat :=
  names.filterMap canonicalIndex?

/-- The number of pairs of places of which the later one is smaller. -/
def inversions : List Nat → Nat
  | [] => 0
  | place :: rest => rest.countP (· < place) + inversions rest

/-- There are no more of them than pairs. -/
theorem inversions_le (places : List Nat) :
    inversions places ≤ places.length * (places.length - 1) / 2 := by
  induction places with
  | nil => exact Nat.le_refl 0
  | cons place rest ih =>
    have hcount : rest.countP (· < place) ≤ rest.length := List.countP_le_length
    rw [inversions, List.length_cons, Nat.triangle_succ]
    omega

theorem inversions_append_swap {place next : Nat} (hlt : next < place) (before after : List Nat) :
    inversions (before ++ place :: next :: after) =
      inversions (before ++ next :: place :: after) + 1 := by
  induction before with
  | nil =>
    have hnot : ¬ place < next := Nat.lt_asymm hlt
    simp only [List.nil_append, inversions, List.countP_cons, hlt, hnot, decide_true, decide_false,
      if_true, Bool.false_eq_true, if_false]
    omega
  | cons first before ih =>
    have hperm := (List.Perm.swap next place after).append_left before
    rw [List.cons_append, List.cons_append, inversions, inversions, ih, hperm.countP_eq]
    omega

/-! ## Exchanging neighbours -/

/-- The items with those at a place and behind it exchanged, if there are two. -/
def exchangeAt {α : Type} : Nat → List α → List α
  | 0, first :: second :: rest => second :: first :: rest
  | k + 1, first :: rest => first :: exchangeAt k rest
  | _, items => items

theorem exchangeAt_append {α : Type} (before : List α) (first second : α) (after : List α) :
    exchangeAt before.length (before ++ first :: second :: after) =
      before ++ second :: first :: after := by
  induction before with
  | nil => rfl
  | cons item before ih => rw [List.length_cons, List.cons_append, exchangeAt, ih, List.cons_append]

theorem exchangeAt_perm {α : Type} (k : Nat) (items : List α) :
    (exchangeAt k items).Perm items := by
  induction k generalizing items with
  | zero =>
    rcases items with _ | ⟨first, _ | ⟨second, rest⟩⟩
    · exact List.Perm.refl []
    · exact List.Perm.refl [first]
    · exact List.Perm.swap first second rest
  | succ k ih =>
    cases items with
    | nil => exact List.Perm.refl []
    | cons first rest => exact (ih rest).cons first

theorem exchangeAt_map {α β : Type} (f : α → β) (k : Nat) (items : List α) :
    exchangeAt k (items.map f) = (exchangeAt k items).map f := by
  induction k generalizing items with
  | zero => rcases items with _ | ⟨first, _ | ⟨second, rest⟩⟩ <;> rfl
  | succ k ih =>
    cases items with
    | nil => rfl
    | cons first rest => rw [List.map_cons, exchangeAt, exchangeAt, ih, List.map_cons]

/-- Neighbours stand one behind the other. -/
theorem exists_eq_append_of_getElem? {α : Type} {items : List α} {k : Nat} {first second : α}
    (hfirst : items[k]? = some first) (hsecond : items[k + 1]? = some second) :
    ∃ before after, items = before ++ first :: second :: after ∧ before.length = k := by
  rcases List.getElem?_eq_some_iff.mp hfirst with ⟨hk, rfl⟩
  rcases List.getElem?_eq_some_iff.mp hsecond with ⟨hk', rfl⟩
  refine ⟨items.take k, items.drop (k + 1 + 1), ?_, List.length_take_of_le (Nat.le_of_lt hk)⟩
  rw [← List.drop_eq_getElem_cons hk', ← List.drop_eq_getElem_cons hk, List.take_append_drop]

/-- Exchanging two neighbouring names that descend takes away one pair in the wrong order. -/
theorem inversions_exchangeAt {names : List (List Char)} {k : Nat} {current next : List Char}
    (hcurrent : names[k]? = some current) (hnext : names[k + 1]? = some next)
    (hdescends : Descends current next) :
    inversions (places names) = inversions (places (exchangeAt k names)) + 1 := by
  rcases exists_eq_append_of_getElem? hcurrent hnext with ⟨before, after, rfl, rfl⟩
  rcases hdescends with ⟨place, hplace, nextPlace, hnextPlace, hlt⟩
  have hplaces := inversions_append_swap hlt (places before) (places after)
  rw [exchangeAt_append]
  simpa [places, Option.mem_def.mp hplace, Option.mem_def.mp hnextPlace] using hplaces

/-! ## Runs -/

/-- The places in each maximal run of neighbouring names that have one: what stands between the
names without a place. -/
def runs (names : List (List Char)) : List (List Nat) :=
  ((names.map canonicalIndex?).splitOn none).map fun run => run.filterMap id

theorem mem_neighbours_iff {α : Type} {items : List α} {pair : α × α} :
    pair ∈ neighbours items ↔
      ∃ k, items[k]? = some pair.1 ∧ items[k + 1]? = some pair.2 := by
  simp only [neighbours, List.mem_iff_getElem?, List.getElem?_zip_eq_some, List.getElem?_tail]

theorem forall_mem_neighbours_iff {α : Type} {R : α → α → Prop} (items : List α) :
    (∀ pair ∈ neighbours items, R pair.1 pair.2) ↔ items.IsChain R := by
  induction items with
  | nil => simp [neighbours]
  | cons first rest ih =>
    cases rest with
    | nil => simp [neighbours]
    | cons second rest =>
      rw [neighbours_cons_cons, List.forall_mem_cons, List.isChain_cons_cons, ih]

/-- Two optional places are in order unless there are two and the second one is smaller. -/
def InOrder (place next : Option Nat) : Prop :=
  ∀ n ∈ place, ∀ m ∈ next, n ≤ m

theorem map_some_filterMap_id {run : List (Option Nat)} (hrun : none ∉ run) :
    (run.filterMap id).map some = run := by
  induction run with
  | nil => rfl
  | cons place rest ih =>
    rw [List.mem_cons, not_or] at hrun
    cases place with
    | none => exact absurd rfl hrun.1
    | some n => exact congrArg (some n :: ·) (ih hrun.2)

/-- What is in order in a run is so everywhere, as places that do not decrease from neighbour to
neighbour never do. -/
theorem isChain_inOrder_iff_of_not_mem {run : List (Option Nat)} (hrun : none ∉ run) :
    run.IsChain InOrder ↔ (run.filterMap id).Pairwise (· ≤ ·) := by
  have hsome (n m : Nat) : InOrder (some n) (some m) ↔ n ≤ m := by simp [InOrder]
  conv_lhs => rw [← map_some_filterMap_id hrun]
  rw [List.isChain_map, ← List.isChain_iff_pairwise]
  exact List.IsChain.iff hsome

/-- A missing place is in order with both of its neighbours, so it ends a run. -/
theorem isChain_inOrder_iff (places : List (Option Nat)) :
    places.IsChain InOrder ↔
      ∀ run ∈ places.splitOn none, (run.filterMap id).Pairwise (· ≤ ·) := by
  induction places using Text.separator_induction none with
  | last run hrun =>
    rw [List.splitOn_eq_singleton hrun, List.forall_mem_singleton,
      isChain_inOrder_iff_of_not_mem hrun]
  | step run rest hrun ih =>
    have hbefore (place : Option Nat) : InOrder place none := by simp [InOrder]
    have hbehind (place : Option Nat) : InOrder none place := by simp [InOrder]
    rw [List.splitOn_append_cons_self_of_not_mem hrun, List.forall_mem_cons, ← ih,
      List.isChain_append, List.isChain_cons, isChain_inOrder_iff_of_not_mem hrun]
    simp [hbefore, hbehind]

/-- There is no advice exactly if the places never decrease along a run. -/
theorem advice_eq_nil_iff (names : List (List Char)) :
    advice names = [] ↔ ∀ run ∈ runs names, run.Pairwise (· ≤ ·) := by
  have horder (current next : List Char) :
      InOrder (canonicalIndex? current) (canonicalIndex? next) ↔ ¬ Descends current next := by
    simp only [InOrder, Descends, not_exists, not_and, Nat.not_lt]
  rw [runs, List.forall_mem_map, ← isChain_inOrder_iff, List.isChain_map,
    List.IsChain.iff horder, ← forall_mem_neighbours_iff, advice, List.map_eq_nil_iff,
    List.filter_eq_nil_iff]
  simp only [decide_eq_true_eq]

theorem advice_append {unplaced : List (List Char)}
    (hunplaced : ∀ name ∈ unplaced, canonicalIndex? name = none) (names : List (List Char)) :
    advice (names ++ unplaced) = advice names := by
  induction unplaced generalizing names with
  | nil => rw [List.append_nil]
  | cons name rest ih =>
    rw [List.forall_mem_cons] at hunplaced
    rw [List.append_cons, ih hunplaced.2, advice_append_singleton hunplaced.1]

/-- If no name without a place stands between others, all places are in order or there is
advice. -/
theorem advice_eq_nil_iff_of_append {placed unplaced : List (List Char)}
    (hplaced : ∀ name ∈ placed, canonicalIndex? name ≠ none)
    (hunplaced : ∀ name ∈ unplaced, canonicalIndex? name = none) :
    advice (placed ++ unplaced) = [] ↔ (places (placed ++ unplaced)).Pairwise (· ≤ ·) := by
  have hplaces : places (placed ++ unplaced) = places placed := by
    rw [places, List.filterMap_append, List.filterMap_eq_nil_iff.mpr hunplaced, List.append_nil,
      places]
  have hruns : runs placed = [places placed] := by
    have hrun : none ∉ placed.map canonicalIndex? := by
      rw [List.mem_map]
      rintro ⟨name, hname, hnone⟩
      exact hplaced name hname hnone
    rw [runs, List.splitOn_eq_singleton hrun, List.map_singleton, List.filterMap_map,
      Function.id_comp, places]
  rw [advice_append hunplaced, hplaces, advice_eq_nil_iff, hruns, List.forall_mem_singleton]

end SheetLint.PropertyOrder
