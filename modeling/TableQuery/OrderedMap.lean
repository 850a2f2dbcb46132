/-! # Maps in order of arrival

A map that remembers the order in which its keys arrived.  Keys are compared
with `==`, which need not be equality: a key that is already there under
another spelling keeps its place and its first spelling.  One operation,
`alter`, writes to a map; all others that write are cases of it.
-/

namespace TableQuery

/-- Whether all keys of a list of entries differ under `==`. -/
def DistinctKeys {κ α : Type} [BEq κ] (entries : List (κ × α)) : Prop :=
  entries.Pairwise fun a b => (a.1 == b.1) = false

structure OrderedMap (κ α : Type) [BEq κ] where
  entries : List (κ × α)
  distinct : DistinctKeys entries

namespace OrderedMap

variable {κ α : Type} [BEq κ]

/-- Sets the value of a key to `f` of its present value.  A new key goes to the end. -/
def alterEntries (key : κ) (f : Option α → α) : List (κ × α) → List (κ × α)
  | [] => [(key, f none)]
  | (k, a) :: rest =>
    if k == key then (k, f (some a)) :: rest else (k, a) :: alterEntries key f rest

theorem exists_key_of_mem_alterEntries {key : κ} {f : Option α → α} {e : κ × α}
    {entries : List (κ × α)} (member : e ∈ alterEntries key f entries) :
    e.1 = key ∨ ∃ old ∈ entries, old.1 = e.1 := by
  induction entries with
  | nil =>
    rw [List.mem_singleton.1 member]
    exact .inl rfl
  | cons first rest ih =>
    rw [alterEntries] at member
    split at member
    · rcases List.mem_cons.1 member with rfl | later
      · exact .inr ⟨first, List.mem_cons_self, rfl⟩
      · exact .inr ⟨e, List.mem_cons_of_mem _ later, rfl⟩
    · rcases List.mem_cons.1 member with rfl | later
      · exact .inr ⟨first, List.mem_cons_self, rfl⟩
      · rcases ih later with new | ⟨old, known, same⟩
        · exact .inl new
        · exact .inr ⟨old, List.mem_cons_of_mem _ known, same⟩

theorem distinctKeys_alterEntries {key : κ} {f : Option α → α} {entries : List (κ × α)}
    (distinct : DistinctKeys entries) : DistinctKeys (alterEntries key f entries) := by
  induction entries with
  | nil => exact List.pairwise_singleton _ _
  | cons first rest ih =>
    obtain ⟨apart, distinctRest⟩ := List.pairwise_cons.1 distinct
    rw [alterEntries]
    split
    · exact List.pairwise_cons.2 ⟨apart, distinctRest⟩
    · next missed =>
      refine List.pairwise_cons.2 ⟨fun e member => ?_, ih distinctRest⟩
      rcases exists_key_of_mem_alterEntries member with new | ⟨old, known, same⟩
      · simpa [new] using missed
      · simpa [← same] using apart old known

def empty : OrderedMap κ α := ⟨[], List.Pairwise.nil⟩

instance : EmptyCollection (OrderedMap κ α) := ⟨empty⟩

instance : Inhabited (OrderedMap κ α) := ⟨empty⟩

def alter (m : OrderedMap κ α) (key : κ) (f : Option α → α) : OrderedMap κ α :=
  ⟨alterEntries key f m.entries, distinctKeys_alterEntries m.distinct⟩

/-- Sets the value of a key; the last value wins. -/
def insert (m : OrderedMap κ α) (key : κ) (value : α) : OrderedMap κ α :=
  m.alter key fun _ => value

/-- Sets the value of a key that is not there yet; the first value wins. -/
def insertNew (m : OrderedMap κ α) (key : κ) (value : α) : OrderedMap κ α :=
  m.alter key fun old => old.getD value

/-- The entry of a key, with the key as it first arrived. -/
def find? (m : OrderedMap κ α) (key : κ) : Option (κ × α) :=
  m.entries.find? fun e => e.1 == key

def get? (m : OrderedMap κ α) (key : κ) : Option α :=
  (m.find? key).map (·.2)

def contains (m : OrderedMap κ α) (key : κ) : Bool :=
  m.entries.any fun e => e.1 == key

def size (m : OrderedMap κ α) : Nat := m.entries.length

def keys (m : OrderedMap κ α) : List κ := m.entries.map (·.1)

def values (m : OrderedMap κ α) : List α := m.entries.map (·.2)

/-- The map of a list of entries, the last value of a repeated key winning. -/
def ofList (entries : List (κ × α)) : OrderedMap κ α :=
  entries.foldl (fun m e => m.insert e.1 e.2) ∅

/-- The map of a list of entries, the first value of a repeated key winning. -/
def ofListFirst (entries : List (κ × α)) : OrderedMap κ α :=
  entries.foldl (fun m e => m.insertNew e.1 e.2) ∅

theorem distinctKeys_filterMap {f : κ × α → Option (κ × α)}
    (keepsKey : ∀ e e', f e = some e' → e'.1 = e.1) {entries : List (κ × α)}
    (distinct : DistinctKeys entries) : DistinctKeys (entries.filterMap f) := by
  refine List.pairwise_filterMap.2 (List.Pairwise.imp ?_ distinct)
  intro a b apart a' ofA b' ofB
  rw [keepsKey a a' ofA, keepsKey b b' ofB]
  exact apart

/-- The keys of `m` that `n` has as well, in the order of `m` and with the values of `n`. -/
def inter (m n : OrderedMap κ α) : OrderedMap κ α :=
  ⟨m.entries.filterMap fun e => (n.get? e.1).map fun a => (e.1, a),
    distinctKeys_filterMap (by
      intro e e' found
      obtain ⟨a, _, rfl⟩ := Option.map_eq_some_iff.1 found
      rfl) m.distinct⟩

/-- The entries of `m`, followed by the entries of `n` for keys that `m` does not have. -/
def union (m n : OrderedMap κ α) : OrderedMap κ α :=
  n.entries.foldl (fun m e => m.insertNew e.1 e.2) m

/-- Whether two maps have the same entries in any order. -/
def sameEntries [BEq α] (m n : OrderedMap κ α) : Bool :=
  m.size == n.size && m.entries.all fun e => n.get? e.1 == some e.2

end OrderedMap

end TableQuery
