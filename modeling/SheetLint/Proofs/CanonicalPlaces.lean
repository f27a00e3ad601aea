import Mathlib.Data.List.TakeWhile
import Mathlib.Data.Set.Finite.Basic
import Mathlib.Order.Bounds.Basic
import SheetLint.Proofs.PropertyNames

/-!
# Places in the canonical order

A name has the first place in the canonical order that stands for its group.  A group has no hyphen
in it, so an entry with a hyphen that is no wildcard is the place of no name, and neither is an
entry whose group comes earlier already.  Every other entry is the place of all names of its group.

Main results:

- Definition `PropertyOrder.entryGroup` gives the group that an entry stands for, and
  `PropertyOrder.covers_iff` says that the entry covers this group only.
- Theorem `PropertyOrder.canonicalIndex?_eq_some_iff` says that a name has the least place of its
  group.
- Definition `PropertyOrder.IsReached` with theorems `PropertyOrder.isReached_of_canonicalIndex?`
  and `PropertyOrder.infinite_names_of_isReached`: a place is that of no name or of infinitely
  many.
- Theorem `PropertyOrder.places_of_names` lists the entries that are the place of no name.
-/

namespace SheetLint

/-- The first position where a test succeeds is the least one. -/
theorem findIdx?_eq_some_iff_isLeast {α : Type} {p : α → Bool} {items : List α} {i : Nat} :
    items.findIdx? p = some i ↔ IsLeast {j | ∃ item ∈ items[j]?, p item = true} i := by
  rw [List.findIdx?_eq_some_iff_getElem]
  constructor
  · rintro ⟨hi, hpass, hfail⟩
    refine ⟨⟨items[i], List.getElem?_eq_getElem hi, hpass⟩, ?_⟩
    rintro j ⟨item, hitem, hitempass⟩
    by_contra hlt
    obtain ⟨hj, rfl⟩ := List.getElem?_eq_some_iff.mp hitem
    exact hfail j (Nat.lt_of_not_le hlt) hitempass
  · rintro ⟨⟨item, hitem, hpass⟩, hleast⟩
    obtain ⟨hi, rfl⟩ := List.getElem?_eq_some_iff.mp hitem
    refine ⟨hi, hpass, fun j hlt hj => ?_⟩
    have hle := hleast ⟨items[j], List.getElem?_eq_getElem (Nat.lt_trans hlt hi), hj⟩
    omega

namespace PropertyOrder

/-! ## Groups of names and of entries -/

theorem hyphen_not_mem_group (name : List Char) : '-' ∉ group name :=
  Text.not_mem_takeWhile_bne '-' name

/-- The group of a name is what stands in front of the first hyphen. -/
theorem group_append_hyphen {front : List Char} (hfront : '-' ∉ front) (back : List Char) :
    group (front ++ '-' :: back) = front := by
  rw [group, List.takeWhile_append_of_pos (Text.bne_of_not_mem hfront),
    List.takeWhile_cons_of_neg (by decide), List.append_nil]

theorem group_of_not_mem {name : List Char} (hname : '-' ∉ name) : group name = name := by
  rw [group, List.takeWhile_eq_self_iff]
  exact Text.bne_of_not_mem hname

/-- The group that an entry stands for: the entry without a wildcard at its end. -/
def entryGroup (entry : List Char) : List Char :=
  if wildcard <:+ entry then entry.take (entry.length - wildcard.length) else entry

theorem entryGroup_append_wildcard (front : List Char) :
    entryGroup (front ++ wildcard) = front := by
  rw [entryGroup, if_pos (List.suffix_append front wildcard), List.length_append,
    Nat.add_sub_cancel, List.take_left]

/-- An entry covers the group that it stands for, and no other one. -/
theorem covers_iff {entry g : List Char} (hg : '-' ∉ g) :
    covers entry g = true ↔ entryGroup entry = g := by
  rw [covers, Bool.or_eq_true, beq_iff_eq, beq_iff_eq]
  by_cases hwildcard : wildcard <:+ entry
  · rcases hwildcard with ⟨front, rfl⟩
    rw [entryGroup_append_wildcard, List.append_left_inj]
    constructor
    · rintro (rfl | hfront)
      · exact absurd (List.mem_append_right front List.mem_cons_self) hg
      · exact hfront
    · exact Or.inr
  · rw [entryGroup, if_neg hwildcard]
    constructor
    · rintro (hentry | rfl)
      · exact hentry
      · exact absurd (List.suffix_append g wildcard) hwildcard
    · exact Or.inl

/-! ## Places of names -/

/-- The places of the entries that stand for a group. -/
def placesOf (g : List Char) : Set Nat :=
  {j | ∃ entry ∈ canonicalOrder[j]?, entryGroup entry.toList = g}

/-- A name has the least of the places of its group. -/
theorem canonicalIndex?_eq_some_iff {name : List Char} {i : Nat} :
    canonicalIndex? name = some i ↔ IsLeast (placesOf (group name)) i := by
  have hcovers (entry : String) :
      covers entry.toList (group name) = true ↔ entryGroup entry.toList = group name :=
    covers_iff (hyphen_not_mem_group name)
  rw [canonicalIndex?, findIdx?_eq_some_iff_isLeast]
  simp only [hcovers, placesOf]

/-! ## Places that are reached -/

/-- A place is reached when its entry stands for a group without a hyphen that no earlier entry
stands for. -/
def IsReached (i : Nat) : Prop :=
  ∃ entry ∈ canonicalOrder[i]?, '-' ∉ entryGroup entry.toList ∧
    ∀ earlier ∈ canonicalOrder.take i, entryGroup earlier.toList ≠ entryGroup entry.toList

instance : DecidablePred IsReached := fun _ => Option.decidableExistsMem _

theorem isReached_iff_isLeast {i : Nat} :
    IsReached i ↔ ∃ g, '-' ∉ g ∧ IsLeast (placesOf g) i := by
  constructor
  · rintro ⟨entry, hentry, hhyphen, hearlier⟩
    refine ⟨_, hhyphen, ⟨entry, hentry, rfl⟩, ?_⟩
    rintro j ⟨earlier, hplace, hsame⟩
    by_contra hlt
    refine hearlier earlier ?_ hsame
    exact List.mem_of_getElem? (by rwa [List.getElem?_take_of_lt (Nat.lt_of_not_le hlt)])
  · rintro ⟨g, hhyphen, ⟨entry, hentry, rfl⟩, hleast⟩
    refine ⟨entry, hentry, hhyphen, fun earlier hearlier hsame => ?_⟩
    rcases List.mem_take_iff_getElem.mp hearlier with ⟨j, hj, rfl⟩
    have hle := hleast ⟨_, List.getElem?_eq_getElem _, hsame⟩
    omega

/-- Only places that are reached are places of names. -/
theorem isReached_of_canonicalIndex? {name : List Char} {i : Nat}
    (hname : canonicalIndex? name = some i) : IsReached i :=
  isReached_iff_isLeast.mpr
    ⟨group name, hyphen_not_mem_group name, canonicalIndex?_eq_some_iff.mp hname⟩

/-- A place that is reached is the place of all names of its group. -/
theorem infinite_names_of_isReached {i : Nat} (hi : IsReached i) :
    {name | canonicalIndex? name = some i}.Infinite := by
  rcases isReached_iff_isLeast.mp hi with ⟨g, hhyphen, hleast⟩
  have hdistinct : Function.Injective fun back => g ++ '-' :: back := by
    intro back back' hname
    exact List.tail_eq_of_cons_eq (List.append_cancel_left hname)
  refine Set.infinite_of_injective_forall_mem hdistinct fun back => ?_
  rw [Set.mem_ofPred_eq, canonicalIndex?_eq_some_iff, group_append_hyphen hhyphen]
  exact hleast

/-! ## The entries that no name reaches -/

/-- The entries with a hyphen that have no wildcard. -/
def hyphenatedEntries : List String :=
  ["box-sizing", "z-index", "box-shadow", "list-style", "table-layout", "caption-side",
    "user-select"]

/-- The entries with a wildcard behind the bare entry of their group. -/
def repeatedEntries : List String :=
  ["flex-*", "grid-*", "margin-*", "padding-*", "border-*", "background-*", "font-*",
    "transition-*", "transform-*", "animation-*", "overflow-*", "outline-*"]

/-- All entries that are the place of no name. -/
def unreachedEntries : List String :=
  hyphenatedEntries ++ ["list-style-*"] ++ repeatedEntries

theorem isReached_iff_not_mem {i : Nat} {entry : String}
    (hentry : canonicalOrder[i]? = some entry) : IsReached i ↔ entry ∉ unreachedEntries := by
  have hall : ∀ i < canonicalOrder.length, ∀ entry ∈ canonicalOrder[i]?,
      (IsReached i ↔ entry ∉ unreachedEntries) := by
    -- What is reached depends on the table alone, so each of its places is looked at.
    decide +kernel
  exact hall i (List.getElem?_eq_some_iff.mp hentry).1 entry hentry

/-- The place of a name depends on its group alone, which is the text in front of the first hyphen,
and it is the least place of this group.  So the entries with a hyphen that is no wildcard, and
those whose group has an entry of its own in front of them, are the place of no name at all, and
each of the other 28 entries is that of infinitely many. -/
theorem places_of_names :
    (∀ name name' : List Char, group name = group name' →
      canonicalIndex? name = canonicalIndex? name') ∧
    (∀ front back : List Char, '-' ∉ front →
      group front = front ∧ group (front ++ '-' :: back) = front) ∧
    (∀ (name : List Char) (i : Nat),
      canonicalIndex? name = some i ↔ IsLeast (placesOf (group name)) i) ∧
    (∀ (i : Nat) (entry : String), canonicalOrder[i]? = some entry → entry ∈ unreachedEntries →
      ∀ name, canonicalIndex? name ≠ some i) ∧
    (∀ (i : Nat) (entry : String), canonicalOrder[i]? = some entry → entry ∉ unreachedEntries →
      {name | canonicalIndex? name = some i}.Infinite) ∧
    (canonicalOrder.filter fun entry => entry ∉ unreachedEntries).length = 28 := by
  refine ⟨fun name name' => canonicalIndex?_congr,
    fun front back hfront => ⟨group_of_not_mem hfront, group_append_hyphen hfront back⟩,
    fun name i => canonicalIndex?_eq_some_iff, fun i entry hentry hunreached name hname => ?_,
    fun i entry hentry hreached => ?_, by decide⟩
  · have hreached : IsReached i := isReached_of_canonicalIndex? hname
    exact (isReached_iff_not_mem hentry).mp hreached hunreached
  · apply infinite_names_of_isReached
    exact (isReached_iff_not_mem hentry).mpr hreached

/-- The entry `flex-*` is the place of no name, as the entry `flex` comes first. -/
theorem places_of_names_with_flex :
    canonicalIndex? "flex-direction".toList = canonicalIndex? "flex".toList ∧
      group "flex-direction".toList = "flex".toList ∧
      canonicalIndex? "flex-*".toList ≠ some 7 ∧
      {name | canonicalIndex? name = some 6}.Infinite := by
  rcases places_of_names with ⟨hsame, hgroup, _, hunreached, hreached, _⟩
  have hflex : '-' ∉ "flex".toList := by decide
  rcases hgroup "flex".toList "direction".toList hflex with ⟨hbare, hfront⟩
  refine ⟨hsame _ _ (hfront.trans hbare.symm), hfront, ?_, ?_⟩
  · exact hunreached 7 "flex-*" rfl (by decide) _
  · exact hreached 6 "flex" rfl (by decide)

end PropertyOrder

end SheetLint
