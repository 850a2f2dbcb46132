import TableQuery.Aggregate.Catalog
import Mathlib.Data.List.Forall2

/-! # Texts in lower case

Names are put into lower case character by character, and only the capital
letters from A to Z change.  A letter beyond these has one spelling.
-/

namespace TableQuery

namespace Text

/-- Whether a character is another one in lower case: the small letter of a capital from A to Z, or
the same character where the other one is no such capital. -/
inductive Lowers : Char → Char → Prop where
  | capital {c d : Char} (isCapital : 'A' ≤ c ∧ c ≤ 'Z') (small : d.toNat = c.toNat + 32) :
      Lowers c d
  | other {c : Char} (noCapital : ¬('A' ≤ c ∧ c ≤ 'Z')) : Lowers c c

variable {c d : Char}

theorem toLower_of_noCapital (noCapital : ¬('A' ≤ c ∧ c ≤ 'Z')) : c.toLower = c := by
  unfold Char.toLower
  rw [dif_neg (show ¬(c.val ≥ 'A'.val ∧ c.val ≤ 'Z'.val) from noCapital)]

theorem toNat_toLower (isCapital : 'A' ≤ c ∧ c ≤ 'Z') : c.toLower.toNat = c.toNat + 32 := by
  have lowered : c.toLower.val = c.val + 32 := by
    unfold Char.toLower
    rw [dif_pos (show c.val ≥ 'A'.val ∧ c.val ≤ 'Z'.val from isCapital)]
    rfl
  have bound : c.val.toNat ≤ 90 := isCapital.2
  have small : (32 : UInt32).toNat = 32 := rfl
  change c.toLower.val.toNat = c.val.toNat + 32
  rw [lowered, UInt32.toNat_add, small, Nat.mod_eq_of_lt (by omega)]

theorem lowers_toLower (c : Char) : Lowers c c.toLower := by
  by_cases isCapital : 'A' ≤ c ∧ c ≤ 'Z'
  · exact .capital isCapital (toNat_toLower isCapital)
  · rw [toLower_of_noCapital isCapital]
    exact .other isCapital

theorem Lowers.eq_of_nonASCII (lowers : Lowers c d) (beyond : 127 < c.toNat) : d = c := by
  cases lowers with
  | capital isCapital small =>
    have bound : c.toNat ≤ 90 := isCapital.2
    omega
  | other noCapital => rfl

theorem Lowers.toLower_eq (lowers : Lowers c d) : d.toLower = d := by
  apply toLower_of_noCapital
  cases lowers with
  | capital isCapital small =>
    have low : 65 ≤ c.toNat := isCapital.1
    rintro ⟨_, high⟩
    have high : d.toNat ≤ 90 := high
    omega
  | other noCapital => exact noCapital

end Text

theorem toList_foldCase (name : String) : (foldCase name).toList = name.toList.map Char.toLower :=
  String.toList_ofList

theorem lowers_foldCase (name : String) :
    List.Forall₂ Text.Lowers name.toList (foldCase name).toList := by
  rw [toList_foldCase, List.forall₂_map_right_iff, List.forall₂_same]
  exact fun c _ => Text.lowers_toLower c

@[simp] theorem foldCase_foldCase (name : String) : foldCase (foldCase name) = foldCase name := by
  rw [← String.toList_inj, toList_foldCase, toList_foldCase, List.map_map]
  exact List.map_congr_left fun c _ => (Text.lowers_toLower c).toLower_eq

theorem foldCase_append (first second : String) :
    foldCase (first ++ second) = foldCase first ++ foldCase second := by
  rw [← String.toList_inj, String.toList_append, toList_foldCase, toList_foldCase, toList_foldCase,
    String.toList_append, List.map_append]

end TableQuery
