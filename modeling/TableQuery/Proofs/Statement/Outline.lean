import TableQuery.Proofs.Statement.Places
import TableQuery.Statement.Outline

/-! # Reading an outline

An outline shows the labels of a tree and nothing else of it.  Conversely the
labels can be read off the outline: a line gives the depth and the label of a
node, and the depths say how the nodes hang together.  This needs labels that
do not start with a space, which would look like indentation, and labels
without line breaks.

`LabelTree.ofOutline` is the reader, and `ofOutline_outline` says that it gets
back what was shown.  It goes through the entries of an outline, one for each
line: they are gathered to trees from the last one to the first, so that what
is below a label has been put together before the label is reached.
-/

namespace TableQuery

theorem span_append {τ : Type} {p : τ → Bool} {inside rest : List τ}
    (all : ∀ a ∈ inside, p a = true) (stops : ∀ a ∈ rest.head?, p a = false) :
    (inside ++ rest).span p = (inside, rest) := by
  rw [List.span_eq_takeWhile_dropWhile, List.takeWhile_append_of_pos all,
    List.dropWhile_append_of_pos all]
  cases rest with
  | nil => simp
  | cons a rest => simp [stops a rfl]

/-- Lines can be told apart by the breaks that end them. -/
theorem splitOn_lines {lines : List (List Char)} (whole : ∀ line ∈ lines, '\n' ∉ line) :
    (lines.flatMap (· ++ ['\n'])).splitOn '\n' = lines ++ [[]] := by
  induction lines with
  | nil => rfl
  | cons line lines ih =>
    obtain ⟨first, later⟩ := List.forall_mem_cons.1 whole
    rw [List.flatMap_cons, List.append_assoc, List.singleton_append,
      List.splitOn_append_cons_self_of_not_mem first, ih later, List.cons_append]

structure LabelTree where
  label : String
  children : List LabelTree

namespace Node

variable {α : Type}

mutual

def labelTree : Node α → LabelTree
  | ⟨_, kind, children⟩ => ⟨kind.label, labelTrees children⟩

def labelTrees : List (Node α) → List LabelTree
  | [] => []
  | n :: ns => n.labelTree :: labelTrees ns

end

end Node

/-- What a line of an outline shows: a label, and how deep in the tree it is. -/
structure OutlineEntry where
  depth : Nat
  label : String

namespace LabelTree

mutual

/-- The entries of a tree at a depth, every label before those below it. -/
def entriesAt (depth : Nat) : LabelTree → List OutlineEntry
  | ⟨label, children⟩ => ⟨depth, label⟩ :: entriesAllAt (depth + 1) children

def entriesAllAt (depth : Nat) : List LabelTree → List OutlineEntry
  | [] => []
  | t :: ts => t.entriesAt depth ++ entriesAllAt depth ts

end

/-! ## Gathering entries -/

/-- The trees that entries make up, each with its depth.  Below a label is what follows it deeper
down. -/
def gather : List OutlineEntry → List (Nat × LabelTree)
  | [] => []
  | ⟨depth, label⟩ :: entries =>
    let (below, after) := (gather entries).span fun t => depth < t.1
    (depth, ⟨label, below.map Prod.snd⟩) :: after

theorem head?_gather_le {depth : Nat} {entries : List OutlineEntry}
    (stops : ∀ e ∈ entries.head?, e.depth ≤ depth) : ∀ t ∈ (gather entries).head?, t.1 ≤ depth := by
  cases entries with
  | nil => exact fun _ first => nomatch first
  | cons e entries => simpa [gather] using stops

mutual

/-- A tree is gathered from its entries when nothing deeper than its root follows. -/
theorem gather_entriesAt : ∀ (t : LabelTree) {depth : Nat} {rest : List OutlineEntry},
    (∀ e ∈ rest.head?, e.depth ≤ depth) →
      gather (t.entriesAt depth ++ rest) = (depth, t) :: gather rest
  | ⟨label, children⟩, depth, rest, stops => by
    have below : ∀ t ∈ children.map fun t => (depth + 1, t), decide (depth < t.1) = true := by
      simp
    have after : ∀ t ∈ (gather rest).head?, decide (depth < t.1) = false := fun t first =>
      decide_eq_false (Nat.not_lt.2 (head?_gather_le stops t first))
    -- The children have been gathered one step deeper, and what follows them is not below the root.
    rw [entriesAt, List.cons_append, gather,
      gather_entriesAllAt children fun e first => Nat.le_succ_of_le (stops e first),
      span_append below after]
    simp

theorem gather_entriesAllAt : ∀ (ts : List LabelTree) {depth : Nat} {rest : List OutlineEntry},
    (∀ e ∈ rest.head?, e.depth ≤ depth) →
      gather (entriesAllAt depth ts ++ rest) = (ts.map fun t => (depth, t)) ++ gather rest
  | [], _, _, _ => rfl
  | t :: ts, depth, rest, stops => by
    -- The first tree is followed by its next sibling, or by what follows all of them.
    have next : ∀ e ∈ (entriesAllAt depth ts ++ rest).head?, e.depth ≤ depth := by
      cases ts with
      | nil => exact stops
      | cons u us =>
        obtain ⟨label, children⟩ := u
        simp [entriesAllAt, entriesAt]
    rw [entriesAllAt, List.append_assoc, gather_entriesAt t next, gather_entriesAllAt ts stops]
    rfl

end

end LabelTree

/-- Whether a label cannot be taken for something else in an outline: it has no line break in it,
and no space before it. -/
def IsPlainLabel (label : String) : Prop :=
  '\n' ∉ label.toList ∧ label.toList.head? ≠ some ' '

instance (label : String) : Decidable (IsPlainLabel label) :=
  inferInstanceAs (Decidable (_ ∧ _))

namespace OutlineEntry

/-- The line of an entry: two spaces for every step down, and the label. -/
def line (e : OutlineEntry) : List Char := List.replicate (2 * e.depth) ' ' ++ e.label.toList

def ofLine (line : List Char) : OutlineEntry :=
  let (spaces, label) := line.span (· == ' ')
  ⟨spaces.length / 2, String.ofList label⟩

variable {e : OutlineEntry}

theorem ofLine_line (plain : IsPlainLabel e.label) : ofLine e.line = e := by
  have spaces : ∀ c ∈ List.replicate (2 * e.depth) ' ', (c == ' ') = true := by simp
  have stops : ∀ c ∈ e.label.toList.head?, (c == ' ') = false := by
    intro c first
    rw [beq_eq_false_iff_ne]
    rintro rfl
    exact plain.2 first
  rw [ofLine, line, span_append spaces stops]
  simp

theorem newline_notMem_line (plain : IsPlainLabel e.label) : '\n' ∉ e.line := by
  simp [line, plain.1]

end OutlineEntry

/-! ## Outlines -/

def LabelTree.ofOutline (text : String) : List LabelTree :=
  (gather ((text.toList.splitOn '\n').dropLast.map OutlineEntry.ofLine)).map Prod.snd

namespace Node

variable {α β : Type}

mutual

theorem outlineAt_eq_entriesAt : ∀ (depth : Nat) (n : Node α),
    (n.outlineAt depth).map String.toList = (n.labelTree.entriesAt depth).map OutlineEntry.line
  | depth, ⟨_, kind, children⟩ => by
    rw [outlineAt, labelTree, LabelTree.entriesAt, List.map_cons, List.map_cons,
      outlineAllAt_eq_entriesAllAt (depth + 1) children]
    simp [OutlineEntry.line]

theorem outlineAllAt_eq_entriesAllAt : ∀ (depth : Nat) (ns : List (Node α)),
    (outlineAllAt depth ns).map String.toList =
      (LabelTree.entriesAllAt depth (labelTrees ns)).map OutlineEntry.line
  | _, [] => rfl
  | depth, n :: ns => by
    rw [outlineAllAt, labelTrees, LabelTree.entriesAllAt, List.map_append, List.map_append,
      outlineAt_eq_entriesAt depth n, outlineAllAt_eq_entriesAllAt depth ns]

end

theorem toList_outline (n : Node α) : n.outline.toList =
    ((n.labelTree.entriesAt 0).map OutlineEntry.line).flatMap (· ++ ['\n']) := by
  rw [outline, String.toList_join, ← outlineAt_eq_entriesAt, List.flatMap_map, List.flatMap_map]
  simp

mutual

/-- The entries of a tree of labels are met on a walk: the depth of a node is the number of steps on
the way down to it. -/
theorem entriesAt_labelTree : ∀ (depth : Nat) (n : Node α), n.labelTree.entriesAt depth =
    n.walk.map fun step => ⟨depth + step.1.length, step.2.label⟩
  | depth, ⟨_, kind, children⟩ => by
    rw [labelTree, LabelTree.entriesAt, walk, List.map_cons,
      entriesAllAt_labelTrees depth 0 children]
    rfl

theorem entriesAllAt_labelTrees : ∀ (depth first : Nat) (ns : List (Node α)),
    LabelTree.entriesAllAt (depth + 1) (labelTrees ns) =
      (walkAll first ns).map fun step => ⟨depth + step.1.length, step.2.label⟩
  | _, _, [] => rfl
  | depth, first, n :: ns => by
    rw [labelTrees, LabelTree.entriesAllAt, walkAll, List.map_append, List.map_map,
      entriesAt_labelTree (depth + 1) n, entriesAllAt_labelTrees depth (first + 1) ns]
    simp [Function.comp_def, Nat.add_right_comm, Nat.add_assoc]

end

def HasPlainLabels (n : Node α) : Prop := ∀ m ∈ n.nodes, IsPlainLabel m.label

instance (n : Node α) : Decidable n.HasPlainLabels :=
  inferInstanceAs (Decidable (∀ m ∈ n.nodes, _))

namespace HasPlainLabels

variable {n : Node α}

theorem of_mem_entriesAt (plain : n.HasPlainLabels) {depth : Nat} {e : OutlineEntry}
    (member : e ∈ n.labelTree.entriesAt depth) : IsPlainLabel e.label := by
  rw [entriesAt_labelTree] at member
  obtain ⟨step, met, rfl⟩ := List.mem_map.1 member
  apply plain step.2
  rw [← map_snd_walk]
  exact List.mem_map_of_mem met

theorem splitOn_outline (plain : n.HasPlainLabels) : n.outline.toList.splitOn '\n' =
    (n.labelTree.entriesAt 0).map OutlineEntry.line ++ [[]] := by
  rw [toList_outline, splitOn_lines]
  intro line member
  obtain ⟨e, among, rfl⟩ := List.mem_map.1 member
  exact OutlineEntry.newline_notMem_line (plain.of_mem_entriesAt among)

theorem ofOutline_outline (plain : n.HasPlainLabels) :
    LabelTree.ofOutline n.outline = [n.labelTree] := by
  have each : ∀ e ∈ n.labelTree.entriesAt 0, (OutlineEntry.ofLine ∘ OutlineEntry.line) e = id e :=
    fun e member => OutlineEntry.ofLine_line (plain.of_mem_entriesAt member)
  have gathered : LabelTree.gather (n.labelTree.entriesAt 0 ++ []) = [(0, n.labelTree)] :=
    LabelTree.gather_entriesAt n.labelTree (by simp)
  rw [List.append_nil] at gathered
  rw [LabelTree.ofOutline, plain.splitOn_outline, List.dropLast_concat, List.map_map,
    List.map_congr_left each, List.map_id, gathered]
  rfl

end HasPlainLabels

/-- Nodes with plain labels have the same outline exactly when they have the same tree of labels.
Besides, an outline has a line for every node, in dictionary order of the places, with the label
of the node indented by twice the length of the way down to it; every line is ended by a break, and
nothing stands after the last one. -/
theorem outline_eq_iff_labelTree {n : Node α} {m : Node β} (plain : n.HasPlainLabels)
    (plain' : m.HasPlainLabels) :
    (n.outline = m.outline ↔ n.labelTree = m.labelTree) ∧
    n.outline.toList.splitOn '\n' = (n.walk.map fun step =>
      List.replicate (2 * step.1.length) ' ' ++ step.2.label.toList) ++ [[]] ∧
    n.walk.length = n.size ∧
    (n.walk.Pairwise fun earlier later => earlier.1 < later.1) ∧
    ∀ place k, (place, k) ∈ n.walk ↔ n.at? place = some k := by
  refine ⟨⟨fun same => ?_, fun same => ?_⟩, ?_, n.length_walk, n.sorted_walk, fun _ _ => mem_walk⟩
  · have read := congrArg LabelTree.ofOutline same
    rw [plain.ofOutline_outline, plain'.ofOutline_outline] at read
    exact List.head_eq_of_cons_eq read
  · rw [← String.toList_inj, toList_outline, toList_outline, same]
  · rw [plain.splitOn_outline, entriesAt_labelTree, List.map_map]
    simp [Function.comp_def, OutlineEntry.line]

/-- A call of a function without a name, an identifier with the labels of that call below it, and a
call with its argument below the missing name: the first two have one outline, with a blank line in
it, and the third one has another. -/
theorem outline_of_namelessCall : ∃ n m k : Node Nat,
    n.HasPlainLabels ∧ m.HasPlainLabels ∧ k.HasPlainLabels ∧ n.same m = false ∧
    n.outline = m.outline ∧ n.outline ≠ k.outline ∧ n.outline.toList.splitOn '\n' =
      ["FUNCTION".toList, "  ".toList, "  COLUMN".toList, "    amount".toList, []] := by
  let amount : Node Nat := ⟨3, .identifier "amount", []⟩
  let n : Node Nat := ⟨0, .function, [⟨1, .identifier "", []⟩, ⟨2, .column, [amount]⟩]⟩
  let m : Node Nat := ⟨0, .identifier "FUNCTION", [⟨1, .identifier "", []⟩, ⟨2, .column, [amount]⟩]⟩
  let k : Node Nat := ⟨0, .function, [⟨1, .identifier "", [⟨2, .column, [amount]⟩]⟩]⟩
  have plain : n.HasPlainLabels := by decide
  have plain' : m.HasPlainLabels := by decide
  have plain'' : k.HasPlainLabels := by decide
  obtain ⟨alike, lines, _⟩ := outline_eq_iff_labelTree plain plain'
  refine ⟨n, m, k, plain, plain', plain'', by decide, alike.2 rfl, fun same => ?_,
    lines.trans (by decide)⟩
  have deeper := (outline_eq_iff_labelTree plain plain'').1.1 same
  cases deeper

/-- A label with two spaces before it looks like one further down. -/
example : outline (⟨(), .query, [⟨(), .table, []⟩, ⟨(), .identifier "  sales", []⟩]⟩ : Node Unit) =
    outline (⟨(), .query, [⟨(), .table, [⟨(), .identifier "sales", []⟩]⟩]⟩ : Node Unit) := by
  decide

end Node

end TableQuery
