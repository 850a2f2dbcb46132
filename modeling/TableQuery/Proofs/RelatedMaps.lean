import TableQuery.OrderedMap
import Mathlib.Data.List.Forall2

/-! # Maps under other keys

Two maps are related when they have the same values in the same order, under
related keys.  As long as the relation respects sameness of keys, so that two
keys of one map are the same when their partners in the other are, operations
on ordered maps take related maps to related maps.
-/

namespace TableQuery

open Relator

variable {κ μ α : Type} [BEq κ] [BEq μ]

/-- Whether related keys are the same when their partners are. -/
def RespectsSameness (related : κ → μ → Prop) : Prop :=
  ∀ k l, related k l → ∀ k' l', related k' l' → (k == k') = (l == l')

namespace OrderedMap

def EntryRelated (related : κ → μ → Prop) (e : κ × α) (f : μ × α) : Prop :=
  related e.1 f.1 ∧ e.2 = f.2

/-- Whether two maps have the same values in the same order, under related keys. -/
def Related (related : κ → μ → Prop) (m : OrderedMap κ α) (n : OrderedMap μ α) : Prop :=
  List.Forall₂ (EntryRelated related) m.entries n.entries

variable {related : κ → μ → Prop} {key : κ} {other : μ}

theorem forall₂_alterEntries (respects : RespectsSameness related) (keys : related key other)
    (f : Option α → α) {entries : List (κ × α)} {others : List (μ × α)}
    (lists : List.Forall₂ (EntryRelated related) entries others) :
    List.Forall₂ (EntryRelated related) (alterEntries key f entries)
      (alterEntries other f others) := by
  induction lists with
  | nil => exact .cons ⟨keys, rfl⟩ .nil
  | @cons e e' rest rest' first lists ih =>
    obtain ⟨k, a⟩ := e
    obtain ⟨l, b⟩ := e'
    obtain ⟨heads, rfl⟩ := first
    rw [alterEntries, alterEntries, respects k l heads key other keys]
    split
    · exact .cons ⟨heads, rfl⟩ lists
    · exact .cons ⟨heads, rfl⟩ ih

theorem map_find?_of_forall₂ (respects : RespectsSameness related) (keys : related key other)
    {entries : List (κ × α)} {others : List (μ × α)}
    (lists : List.Forall₂ (EntryRelated related) entries others) :
    (entries.find? fun e => e.1 == key).map (·.2) =
      (others.find? fun e => e.1 == other).map (·.2) := by
  induction lists with
  | nil => rfl
  | @cons e e' rest rest' first lists ih =>
    rw [List.find?_cons, List.find?_cons, respects e.1 e'.1 first.1 key other keys]
    split
    · exact congrArg some first.2
    · exact ih

namespace Related

variable {m m' : OrderedMap κ α} {n n' : OrderedMap μ α}

theorem empty : Related related (∅ : OrderedMap κ α) ∅ := .nil

theorem alter (respects : RespectsSameness related) (maps : Related related m n)
    (keys : related key other) (f : Option α → α) :
    Related related (m.alter key f) (n.alter other f) :=
  forall₂_alterEntries respects keys f maps

theorem get? (respects : RespectsSameness related) (maps : Related related m n)
    (keys : related key other) : m.get? key = n.get? other :=
  map_find?_of_forall₂ respects keys maps

theorem inter (respects : RespectsSameness related) (left : Related related m n)
    (right : Related related m' n') : Related related (m.inter m') (n.inter n') := by
  refine List.rel_filterMap ?_ left
  intro e e' entry
  simp only [right.get? respects entry.1]
  cases n'.get? e'.1 with
  | none => exact .none
  | some a => exact .some ⟨entry.1, rfl⟩

theorem union (respects : RespectsSameness related) (left : Related related m n)
    (right : Related related m' n') : Related related (m.union m') (n.union n') := by
  refine List.rel_foldl ?_ left right
  intro l r maps e e' entry
  simp only [insertNew, entry.2]
  exact maps.alter respects entry.1 _

end Related

end OrderedMap

end TableQuery
