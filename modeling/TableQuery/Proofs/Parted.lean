import Mathlib.Data.List.Basic

/-! # Lists in parts

Tests that exclude each other part a list.  What passes one of them is in one
part, as often as it is in the list, and the parts keep the order of the list.
-/

namespace TableQuery

variable {α : Type}

theorem filter_append_perm_of_disjoint {p q : α → Bool} (as : List α)
    (disjoint : ∀ a ∈ as, p a = true → q a = false) :
    (as.filter p ++ as.filter q).Perm (as.filter fun a => p a || q a) := by
  have parts := List.filter_append_perm p (as.filter fun a => p a || q a)
  rw [List.filter_filter, List.filter_filter] at parts
  have left : (as.filter fun a => p a && (p a || q a)) = as.filter p :=
    List.filter_congr fun a _ => by cases p a <;> rfl
  have right : (as.filter fun a => !p a && (p a || q a)) = as.filter q :=
    List.filter_congr fun a member => by
      cases first : p a with
      | false => rfl
      | true => rw [disjoint a member first]; rfl
  rwa [left, right] at parts

/-- Whether lists are the parts of a list.  Each of its elements is in just one of them and occurs
there as often, and each part has its elements in the order of the whole. -/
structure Parted (whole : List α) (parts : List (List α)) : Prop where
  ordered : ∀ part ∈ parts, part.Sublist whole
  disjoint : parts.Pairwise List.Disjoint
  complete : parts.flatten.Perm whole

theorem flatten_filters_perm (as : List α) {tests : List (α → Bool)}
    (apart : tests.Pairwise fun p q => ∀ a ∈ as, p a = true → q a = false) :
    (tests.map fun p => as.filter p).flatten.Perm (as.filter fun a => tests.any fun p => p a) := by
  induction apart with
  | nil => simp
  | @cons p tests first _ ih =>
    refine (ih.append_left _).trans (filter_append_perm_of_disjoint as fun a member passed => ?_)
    rw [List.any_eq_false]
    intro q isTest
    rw [first q isTest a member passed]
    exact Bool.false_ne_true

theorem parted_filter (as : List α) {tests : List (α → Bool)}
    (apart : tests.Pairwise fun p q => ∀ a ∈ as, p a = true → q a = false) :
    Parted (as.filter fun a => tests.any fun p => p a) (tests.map fun p => as.filter p) where
  ordered := by
    intro part member
    obtain ⟨p, isTest, rfl⟩ := List.mem_map.1 member
    apply List.monotone_filter_right as
    intro a passed
    exact List.any_eq_true.2 ⟨p, isTest, passed⟩
  disjoint := by
    rw [List.pairwise_map]
    refine apart.imp fun excludes a inFirst inSecond => ?_
    obtain ⟨member, passed⟩ := List.mem_filter.1 inFirst
    have failed := excludes a member passed
    rw [(List.mem_filter.1 inSecond).2] at failed
    cases failed
  complete := flatten_filters_perm as apart

end TableQuery
