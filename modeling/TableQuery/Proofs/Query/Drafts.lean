import TableQuery.Proofs.Outcome
import TableQuery.Proofs.Statement.Numbering
import TableQuery.Query.Draft

/-! # Queries that come from drafts

Whatever steps are taken with a draft, nodes are only appended below others, so
that the statement of its query keeps the root it was begun with.
-/

namespace TableQuery

theorem Tree.kind_root_append (t : Tree) (parent : Nat) (kind : Kind) :
    (t.append parent kind).2.root.kind = t.root.kind :=
  Node.kind_graft

theorem Tree.kind_root_appendBelow {t u : Tree} {parent id : NodeId} {kind : Kind}
    (grown : t.appendBelow parent kind = .ok (id, u)) : u.root.kind = t.root.kind := by
  unfold appendBelow append? at grown
  split at grown
  · next found =>
    split at found
    · cases found
      cases grown
      exact t.kind_root_append _ _
    · cases found
  · cases grown

namespace Draft

inductive Reached : Draft → Prop where
  | new (family : Nat) (name : String) : Reached (Draft.new family name)
  | step {d e : Draft} {s : Step} {id : NodeId} (before : Reached d)
      (taken : d.step s = .ok (id, e)) : Reached e

theorem kind_root_step {d e : Draft} {s : Step} {id : NodeId} (taken : d.step s = .ok (id, e)) :
    e.tree.root.kind = d.tree.root.kind := by
  cases s with
  | addTo parent kind =>
    simp only [Draft.step, addTo, bind_eq_ok, pure_eq_ok] at taken
    obtain ⟨⟨_, tree⟩, grown, same⟩ := taken
    cases same
    exact Tree.kind_root_appendBelow grown
  | leave =>
    simp only [Draft.step, Draft.leave] at taken
    split at taken
    · cases taken
    · cases taken
      rfl
  | column name | comparator c | enterFunction name =>
    cases taken
    exact (Tree.kind_root_append _ _ _).trans (Tree.kind_root_append _ _ _)
  | add kind | enter kind | literal value | star =>
    cases taken
    exact Tree.kind_root_append _ _ _

theorem Reached.kind_root {d : Draft} (reached : d.Reached) : d.tree.root.kind = .query := by
  induction reached with
  | new family name => rfl
  | step _ taken ih => rw [kind_root_step taken, ih]

theorem Reached.isQuery {d : Draft} (reached : d.Reached) : d.finish.root.tag = .query :=
  congrArg Kind.tag reached.kind_root

end Draft

end TableQuery
