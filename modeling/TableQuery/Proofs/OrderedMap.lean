import TableQuery.OrderedMap
import Mathlib.Data.List.Basic
import Mathlib.Data.List.Pairwise

/-! # Entries of ordered maps

What the operations on ordered maps do to the list of entries.  The keys are
compared by an equivalence, so that an entry is found under every spelling of
its key.  Two maps that were picked out of one list of entries share their
entries and not only their keys; on such maps the intersection is a filter.
-/

namespace TableQuery

variable {κ α : Type} [BEq κ]

namespace DistinctKeys

variable {entries : List (κ × α)}

theorem eq_of_beq [PartialEquivBEq κ] (distinct : DistinctKeys entries) {a b : κ × α}
    (left : a ∈ entries) (right : b ∈ entries) (alike : a.1 == b.1) : a = b := by
  by_contra different
  have symmetric : Std.Symm fun a b : κ × α => (a.1 == b.1) = false :=
    ⟨fun a b apart => by rw [BEq.comm]; exact apart⟩
  have apart := distinct.forall left right different
  rw [apart] at alike
  cases alike

theorem nodup [ReflBEq κ] (distinct : DistinctKeys entries) : entries.Nodup := by
  refine List.Pairwise.imp ?_ distinct
  intro a b apart same
  rw [same, BEq.rfl] at apart
  cases apart

end DistinctKeys

namespace OrderedMap

theorem alterEntries_fresh {key : κ} {f : Option α → α} {entries : List (κ × α)}
    (fresh : ∀ e ∈ entries, (e.1 == key) = false) :
    alterEntries key f entries = entries ++ [(key, f none)] := by
  induction entries with
  | nil => rfl
  | cons e rest ih =>
    obtain ⟨first, others⟩ := List.forall_mem_cons.1 fresh
    rw [alterEntries, first, ih others]
    rfl

theorem alterEntries_known [PartialEquivBEq κ] {key : κ} {f : Option α → α}
    {entries : List (κ × α)} (distinct : DistinctKeys entries)
    (known : ∃ e ∈ entries, e.1 == key) :
    alterEntries key f entries =
      entries.map fun e => if e.1 == key then (e.1, f (some e.2)) else e := by
  induction entries with
  | nil => simp at known
  | cons e rest ih =>
    obtain ⟨apart, distinctRest⟩ := List.pairwise_cons.1 distinct
    rw [alterEntries, List.map_cons]
    split
    · next found =>
      -- No later entry has the key, so that the map leaves the rest as it is.
      rw [List.map_congr_left (g := id), List.map_id]
      intro other member
      have different : (other.1 == key) = false := by
        rw [BEq.congr_right (BEq.symm found), BEq.comm]
        exact apart other member
      rw [different]
      rfl
    · next missed =>
      obtain ⟨other, member, found⟩ := known
      rcases List.mem_cons.1 member with rfl | member
      · exact absurd found missed
      · rw [ih distinctRest ⟨other, member, found⟩]

variable {m n : OrderedMap κ α} {key : κ}

theorem eq_of_entries (same : m.entries = n.entries) : m = n := by
  cases m
  cases same
  rfl

theorem distinct_keys (m : OrderedMap κ α) : m.keys.Pairwise fun k l => (k == l) = false :=
  List.pairwise_map.2 m.distinct

theorem nodup_keys [LawfulBEq κ] (m : OrderedMap κ α) : m.keys.Nodup :=
  m.distinct_keys.imp fun apart => ne_of_beq_false apart

/-! ## Looking up keys -/

theorem contains_iff : m.contains key = true ↔ ∃ e ∈ m.entries, e.1 == key := by
  simp [contains]

theorem get?_eq_none_iff : m.get? key = none ↔ m.contains key = false := by
  simp [get?, find?, contains]

theorem mem_of_get? {a : α} (found : m.get? key = some a) :
    ∃ k, (k, a) ∈ m.entries ∧ k == key := by
  obtain ⟨e, held, rfl⟩ := Option.map_eq_some_iff.1 found
  exact ⟨e.1, List.mem_of_find?_eq_some held,
    List.find?_some (p := fun e : κ × α => e.1 == key) held⟩

theorem find?_of_mem [PartialEquivBEq κ] {e : κ × α} (member : e ∈ m.entries)
    (alike : e.1 == key) : m.find? key = some e := by
  have known : (m.find? key).isSome = true := by
    rw [find?, List.find?_isSome]
    exact ⟨e, member, alike⟩
  obtain ⟨other, found⟩ := Option.isSome_iff_exists.1 known
  have same : other.1 == key := List.find?_some (p := fun e : κ × α => e.1 == key) found
  rw [found, m.distinct.eq_of_beq member (List.mem_of_find?_eq_some found)
    (BEq.trans alike (BEq.symm same))]

theorem get?_of_mem [PartialEquivBEq κ] {e : κ × α} (member : e ∈ m.entries)
    (alike : e.1 == key) : m.get? key = some e.2 := by
  rw [get?, find?_of_mem member alike]
  rfl

theorem get?_eq_some_iff [LawfulBEq κ] {a : α} :
    m.get? key = some a ↔ (key, a) ∈ m.entries := by
  constructor
  · intro found
    obtain ⟨k, member, same⟩ := mem_of_get? found
    obtain rfl : k = key := eq_of_beq same
    exact member
  · intro member
    exact get?_of_mem member BEq.rfl

theorem contains_iff_exists [LawfulBEq κ] :
    m.contains key = true ↔ ∃ a, (key, a) ∈ m.entries := by
  simp [contains]

theorem mem_keys [LawfulBEq κ] : key ∈ m.keys ↔ m.contains key = true := by
  rw [contains_iff_exists, keys, List.mem_map]
  simp

theorem map_find?_alterEntries [PartialEquivBEq κ] (k : κ) (value : α) (entries : List (κ × α)) :
    ((alterEntries k (fun _ => value) entries).find? fun e => e.1 == key).map (·.2) =
      if k == key then some value else (entries.find? fun e => e.1 == key).map (·.2) := by
  induction entries with
  | nil => by_cases same : k == key <;> simp [alterEntries, same]
  | cons e rest ih =>
    rw [alterEntries]
    by_cases known : e.1 == k
    · rw [if_pos known, List.find?_cons, List.find?_cons]
      have alike : (e.1 == key) = (k == key) := BEq.congr_left known
      by_cases same : k == key <;> simp [alike, same]
    · rw [if_neg known, List.find?_cons, List.find?_cons]
      by_cases here : e.1 == key
      · have apart : (k == key) = false := by
          by_contra same
          exact known (BEq.trans here (BEq.symm (Bool.of_not_eq_false same)))
        simp [here, apart]
      · simp [here, ih]

/-- A value that was set is found under its key, and nothing else changes. -/
theorem get?_insert [PartialEquivBEq κ] (k : κ) (value : α) :
    (m.insert k value).get? key = if k == key then some value else m.get? key :=
  map_find?_alterEntries k value m.entries

/-! ## First values

A list is written entry by entry, and a key that is there already is passed over.  The lemmas
follow the list with any map that it is written into.
-/

theorem entries_insertNew [PartialEquivBEq κ] (value : α) :
    (m.insertNew key value).entries =
      m.entries ++ if m.contains key then [] else [(key, value)] := by
  change alterEntries key _ m.entries = _
  cases held : m.contains key with
  | false =>
    rw [alterEntries_fresh]
    · rfl
    · intro e member
      by_contra alike
      rw [contains_iff.2 ⟨e, member, Bool.of_not_eq_false alike⟩] at held
      cases held
  | true =>
    rw [alterEntries_known m.distinct (contains_iff.1 held)]
    simp

theorem mem_of_mem_foldl_insertNew [PartialEquivBEq κ] {entries : List (κ × α)} {e : κ × α}
    (held : e ∈ (entries.foldl (fun m e => m.insertNew e.1 e.2) m).entries) :
    e ∈ m.entries ∨ e ∈ entries := by
  induction entries generalizing m with
  | nil => exact .inl held
  | cons first rest ih =>
    rcases ih held with held | later
    · rw [entries_insertNew, List.mem_append] at held
      rcases held with held | added
      · exact .inl held
      · split at added
        · cases added
        · exact .inr (List.mem_cons.2 (.inl (List.mem_singleton.1 added)))
    · exact .inr (List.mem_cons_of_mem _ later)

theorem mem_of_mem_ofListFirst [PartialEquivBEq κ] {entries : List (κ × α)} {e : κ × α}
    (member : e ∈ (ofListFirst entries).entries) : e ∈ entries :=
  (mem_of_mem_foldl_insertNew member).resolve_left List.not_mem_nil

theorem find?_insertNew [PartialEquivBEq κ] (k : κ) (value : α) :
    (m.insertNew k value).find? key =
      (m.find? key).or (if k == key then some (k, value) else none) := by
  rw [find?, entries_insertNew, List.find?_append]
  cases held : m.contains k with
  | false => by_cases same : k == key <;> simp [find?, same]
  | true =>
    by_cases same : k == key
    · have known : (m.find? key).isSome = true := by
        obtain ⟨e, member, alike⟩ := contains_iff.1 held
        rw [find?, List.find?_isSome]
        exact ⟨e, member, BEq.trans alike same⟩
      obtain ⟨e, found⟩ := Option.isSome_iff_exists.1 known
      rw [find?] at found
      simp [find?, found]
    · simp [find?, same]

theorem find?_foldl_insertNew [PartialEquivBEq κ] (entries : List (κ × α)) :
    (entries.foldl (fun m e => m.insertNew e.1 e.2) m).find? key =
      (m.find? key).or (entries.find? fun e => e.1 == key) := by
  induction entries generalizing m with
  | nil => simp
  | cons e rest ih =>
    rw [List.foldl_cons, ih, find?_insertNew, List.find?_cons, Option.or_assoc]
    by_cases same : e.1 == key <;> simp [same]

theorem find?_ofListFirst [PartialEquivBEq κ] (entries : List (κ × α)) :
    (ofListFirst entries).find? key = entries.find? fun e => e.1 == key := by
  rw [ofListFirst, find?_foldl_insertNew]
  rfl

theorem insert_of_fresh (fresh : m.contains key = false) (value : α) :
    m.insert key value = m.insertNew key value := by
  have missing : ∀ e ∈ m.entries, (e.1 == key) = false := by simpa [contains] using fresh
  simp only [insert, insertNew, alter, alterEntries_fresh missing]
  rfl

/-- Entries of distinct keys may be written by whatever writes new ones. -/
theorem foldlM_of_fresh [PartialEquivBEq κ] {ε : Type}
    {write : OrderedMap κ α → κ × α → Except ε (OrderedMap κ α)}
    (writes : ∀ m e, m.contains e.1 = false → write m e = .ok (m.insertNew e.1 e.2))
    {entries : List (κ × α)} (distinct : DistinctKeys entries)
    (fresh : ∀ e ∈ entries, m.contains e.1 = false) :
    entries.foldlM write m = .ok (entries.foldl (fun m e => m.insertNew e.1 e.2) m) := by
  induction entries generalizing m with
  | nil => rfl
  | cons e rest ih =>
    obtain ⟨apart, distinctRest⟩ := List.pairwise_cons.1 distinct
    obtain ⟨first, others⟩ := List.forall_mem_cons.1 fresh
    have still : ∀ other ∈ rest, (m.insertNew e.1 e.2).contains other.1 = false := by
      intro other member
      rw [contains, entries_insertNew, first, List.any_append, ← contains, others other member]
      simp [apart other member]
    rw [List.foldlM_cons, writes m e first, List.foldl_cons]
    exact ih distinctRest still

/-- Whatever refuses keys that are there already writes the entries as they are. -/
theorem entries_of_foldlM [PartialEquivBEq κ] {ε : Type}
    {write : OrderedMap κ α → κ × α → Except ε (OrderedMap κ α)}
    (writes : ∀ m e n, write m e = .ok n → m.contains e.1 = false ∧ n = m.insertNew e.1 e.2)
    {entries : List (κ × α)} (written : entries.foldlM write m = .ok n) :
    n.entries = m.entries ++ entries := by
  induction entries generalizing m with
  | nil =>
    cases written
    rw [List.append_nil]
  | cons e rest ih =>
    rw [List.foldlM_cons] at written
    cases first : write m e with
    | error refusal =>
      rw [first] at written
      cases written
    | ok next =>
      rw [first] at written
      obtain ⟨fresh, rfl⟩ := writes m e next first
      rw [ih written, entries_insertNew, fresh]
      simp

/-- Of entries with distinct keys, no one is passed over for another one, so that what `m` alone
holds says which are kept. -/
theorem entries_foldl_insertNew [PartialEquivBEq κ] {entries : List (κ × α)}
    (distinct : DistinctKeys entries) :
    (entries.foldl (fun m e => m.insertNew e.1 e.2) m).entries =
      m.entries ++ entries.filter fun e => !m.contains e.1 := by
  induction entries generalizing m with
  | nil => simp
  | cons e rest ih =>
    obtain ⟨apart, distinctRest⟩ := List.pairwise_cons.1 distinct
    rw [List.foldl_cons, ih distinctRest, entries_insertNew, List.append_assoc, List.filter_cons]
    have unchanged : ∀ other ∈ rest,
        (!(m.insertNew e.1 e.2).contains other.1) = !m.contains other.1 := by
      intro other member
      rw [contains, contains, entries_insertNew, List.any_append]
      split <;> simp [apart other member]
    rw [List.filter_congr unchanged]
    cases m.contains e.1 <;> rfl

/-! ## Two maps -/

theorem entries_union [PartialEquivBEq κ] :
    (m.union n).entries = m.entries ++ n.entries.filter fun e => !m.contains e.1 :=
  entries_foldl_insertNew n.distinct

/-- Of two maps with entries of one list, the intersection has the entries that are in both. -/
theorem entries_inter [EquivBEq κ] {all : List (κ × α)} (distinct : DistinctKeys all)
    (left : m.entries ⊆ all) (right : n.entries ⊆ all) :
    (m.inter n).entries = m.entries.filter fun e => n.contains e.1 := by
  change m.entries.filterMap _ = _
  rw [← List.filterMap_eq_filter]
  refine List.filterMap_congr fun e member => ?_
  cases held : n.contains e.1 with
  | false => simp [get?_eq_none_iff.2 held, Option.guard, held]
  | true =>
    obtain ⟨other, inRight, alike⟩ := contains_iff.1 held
    have equal := distinct.eq_of_beq (right inRight) (left member) alike
    rw [get?_of_mem (equal ▸ inRight) BEq.rfl]
    simp [Option.guard, held]

theorem contains_iff_mem [EquivBEq κ] {all : List (κ × α)} (distinct : DistinctKeys all)
    (among : m.entries ⊆ all) {e : κ × α} (member : e ∈ all) :
    m.contains e.1 = true ↔ e ∈ m.entries := by
  rw [contains_iff]
  constructor
  · rintro ⟨other, held, alike⟩
    rwa [← distinct.eq_of_beq (among held) member alike]
  · intro held
    exact ⟨e, held, BEq.rfl⟩

end OrderedMap

end TableQuery
