import TableQuery.Proofs.OrderedMap
import TableQuery.Proofs.Outcome
import TableQuery.Proofs.Text.Bytes
import TableQuery.Proofs.Text.LetterCase
import Mathlib.Data.List.Sort

/-! # Aggregates found by name

A catalog forgets the spelling of the names under which aggregates are filed,
and of those filed under one name it keeps the last one.  So what it finds can
be read off the list of aggregates that were filed, from its end.
-/

namespace TableQuery.Catalog

variable {c : Catalog} {settings : Settings} {name key : String} {a : Aggregate}

theorem resolve_eq_ok : c.resolve settings name = .ok a ↔
    c.get? (if settings.foldFunctionNames then foldCase name else name) = some a := by
  unfold resolve
  cases c.get? (if settings.foldFunctionNames then foldCase name else name) with
  | none => simp [throw_eq_ok]
  | some found => simp [pure_eq_ok]

theorem resolve_eq_error {refusal : Refusal} : c.resolve settings name = .error refusal ↔
    refusal = .unknownFunction name ∧
      c.get? (if settings.foldFunctionNames then foldCase name else name) = none := by
  unfold resolve
  cases c.get? (if settings.foldFunctionNames then foldCase name else name) with
  | none =>
    rw [throw_eq_error]
    exact ⟨fun same => ⟨same.symm, rfl⟩, fun ⟨same, _⟩ => same.symm⟩
  | some found => simp [pure_eq_error]

theorem get?_register : (c.register a).get? key =
    if foldCase a.name == key then some a else c.get? key :=
  OrderedMap.get?_insert (foldCase a.name) a

theorem get?_foldl_register (as : List Aggregate) (c : Catalog) :
    (as.foldl register c).get? key =
      (as.reverse.find? fun a => foldCase a.name == key).or (c.get? key) := by
  induction as generalizing c with
  | nil => rfl
  | cons a as ih =>
    rw [List.foldl_cons, ih, get?_register, List.reverse_cons, List.find?_append, Option.or_assoc,
      List.find?_singleton]
    split <;> rfl

theorem get?_ofList (as : List Aggregate) :
    (ofList as).get? key = as.reverse.find? fun a => foldCase a.name == key := by
  rw [ofList, get?_foldl_register]
  exact Option.or_none

theorem get?_ofList_eq_some {as : List Aggregate} : (ofList as).get? key = some a ↔
    ∃ before after, as = before ++ a :: after ∧ foldCase a.name = key ∧
      ∀ b ∈ after, foldCase b.name ≠ key := by
  rw [get?_ofList, List.find?_eq_some_iff_append]
  constructor
  · rintro ⟨named, after, before, split, others⟩
    refine ⟨before.reverse, after.reverse, ?_, beq_iff_eq.1 named, fun b member => ?_⟩
    · rw [← as.reverse_reverse, split]
      simp
    · simpa using others b (List.mem_reverse.1 member)
  · rintro ⟨before, after, rfl, named, others⟩
    refine ⟨beq_iff_eq.2 named, after.reverse, before.reverse, by simp, fun b member => ?_⟩
    simpa using others b (List.mem_reverse.1 member)

theorem get?_ofList_eq_none {as : List Aggregate} :
    (ofList as).get? key = none ↔ ∀ a ∈ as, foldCase a.name ≠ key := by
  rw [get?_ofList, List.find?_eq_none]
  simp

theorem mem_names : key ∈ c.names ↔ c.get? key ≠ none := by
  rw [names, List.mem_mergeSort, OrderedMap.mem_keys, get?, ne_eq, OrderedMap.get?_eq_none_iff,
    Bool.not_eq_false]

theorem nodup_names (c : Catalog) : c.names.Nodup :=
  (List.mergeSort_perm _ _).nodup_iff.2 c.aggregates.nodup_keys

theorem rising_names (c : Catalog) : c.names.Pairwise (· < ·) := by
  have rising : c.names.Pairwise fun k l => decide (k ≤ l) = true :=
    List.pairwise_mergeSort (fun _ _ _ => by simpa using le_trans)
      (fun k l => by simpa using le_total k l) c.aggregates.keys
  exact (rising.and c.nodup_names).imp fun ⟨le, ne⟩ => lt_of_le_of_ne (of_decide_eq_true le) ne

/-- Whether a name in a query finds the last of some aggregates that fit, and is refused as it is
written if none of them fits. -/
structure FindsLast (c : Catalog) (settings : Settings) (name : String) (as : List Aggregate)
    (fits : Aggregate → Prop) : Prop where
  found : ∀ a, c.resolve settings name = .ok a ↔
    ∃ before after, as = before ++ a :: after ∧ fits a ∧ ∀ b ∈ after, ¬fits b
  refused : ∀ refusal, c.resolve settings name = .error refusal ↔
    refusal = .unknownFunction name ∧ ∀ a ∈ as, ¬fits a

theorem findsLast_ofList (as : List Aggregate)
    (filed : (if settings.foldFunctionNames then foldCase name else name) = key) :
    (ofList as).FindsLast settings name as fun a => foldCase a.name = key where
  found a := by rw [resolve_eq_ok, filed, get?_ofList_eq_some]
  refused refusal := by rw [resolve_eq_error, filed, get?_ofList_eq_none]

/-- After any filing, a name finds the last aggregate with this name in any letter case, or the last
one whose name is this in lower case, as the settings have it, and is refused as it is written if
there is none.  The names of a catalog are the names of the aggregates in lower case, once each in
the order of their bytes.  Lower case changes the letters from A to Z, and nothing beyond ASCII. -/
theorem resolves_last_filed (as : List Aggregate) (settings : Settings) (name : String) :
    (ofList as).FindsLast { settings with foldFunctionNames := true } name as
      (fun a => foldCase a.name = foldCase name) ∧
    (ofList as).FindsLast { settings with foldFunctionNames := false } name as
      (fun a => foldCase a.name = name) ∧
    ((ofList as).names.Pairwise fun k l => Text.bytes k < Text.bytes l) ∧
    (∀ key, key ∈ (ofList as).names ↔ ∃ a ∈ as, foldCase a.name = key) ∧
    List.Forall₂ Text.Lowers name.toList (foldCase name).toList ∧
    ∀ c d, Text.Lowers c d → 127 < c.toNat → d = c := by
  refine ⟨findsLast_ofList as rfl, findsLast_ofList as rfl, ?_, fun key => ?_,
    lowers_foldCase name, fun _ _ => Text.Lowers.eq_of_nonASCII⟩
  · exact (ofList as).rising_names.imp Text.bytes_lt
  · rw [mem_names, ne_eq, get?_ofList_eq_none]
    simp

end TableQuery.Catalog
