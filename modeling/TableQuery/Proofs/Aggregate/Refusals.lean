import TableQuery.Proofs.Aggregate.Catalog
import TableQuery.Proofs.Table.Refusals

/-! # What aggregates refuse

The built-in aggregates refuse a column only for a cell in it.  An accumulator
refuses what its steps refuse, so that this is seen from single cells.
-/

namespace TableQuery

theorem Accumulator.refusesOnly_reduce {σ : Type} {allowed : Refusal → Prop} {acc : Accumulator σ}
    (each : ∀ state cell, RefusesOnly allowed (acc.step state cell)) (cells : List Cell) :
    RefusesOnly allowed (acc.reduce cells) := by
  apply RefusesOnly.bind (RefusesOnly.foldlM each cells acc.start)
  exact fun _ _ => RefusesOnly.pure _

namespace Aggregate

/-- Whether an aggregate refuses a column only for a cell that it cannot take. -/
def RefusesCells (a : Aggregate) : Prop :=
  ∀ cells,
    RefusesOnly (fun refusal => ∃ name cell, refusal = .notNumeric name cell) (a.reduce cells)

theorem refusesCells_count : count.RefusesCells := by
  apply Accumulator.refusesOnly_reduce
  exact fun _ _ => RefusesOnly.pure _

theorem refusesCells_sum : sum.RefusesCells := by
  apply Accumulator.refusesOnly_reduce
  intro total cell
  cases cell with
  | text s => cases total <;> exact RefusesOnly.throw ⟨_, _, rfl⟩
  | _ => cases total <;> exact RefusesOnly.pure _

theorem refusesCells_avg : avg.RefusesCells := by
  apply Accumulator.refusesOnly_reduce
  intro mean cell
  cases cell with
  | text s => exact RefusesOnly.throw ⟨_, _, rfl⟩
  | _ => exact RefusesOnly.pure _

theorem refusesCells_extreme (e : Extreme) : e.aggregate.RefusesCells := by
  apply Accumulator.refusesOnly_reduce
  intro present cell
  change RefusesOnly _ (e.add present cell)
  unfold Extreme.add
  split
  · exact RefusesOnly.pure _
  · split
    · exact RefusesOnly.pure _
    · split
      · exact RefusesOnly.pure _
      · exact RefusesOnly.throw ⟨_, _, rfl⟩

end Aggregate

namespace Catalog

variable {c : Catalog} {settings : Settings} {name : String}

def RefusesCells (c : Catalog) : Prop := ∀ a ∈ c.aggregates.values, a.RefusesCells

theorem refusesCells_builtin : builtin.RefusesCells := by
  have filed : builtin.aggregates.values = [.count, .sum, .avg, .min, .max] := rfl
  rw [RefusesCells, filed]
  simp only [List.forall_mem_cons]
  exact ⟨Aggregate.refusesCells_count, Aggregate.refusesCells_sum, Aggregate.refusesCells_avg,
    Aggregate.refusesCells_extreme .least, Aggregate.refusesCells_extreme .greatest, by simp⟩

theorem refusesData_resolve (c : Catalog) (settings : Settings) (name : String) :
    RefusesData (c.resolve settings name) := by
  intro refusal refused
  obtain ⟨rfl, _⟩ := resolve_eq_error.1 refused
  rfl

theorem RefusesCells.refusesData {a : Aggregate} (cellsOnly : c.RefusesCells)
    (found : c.resolve settings name = .ok a) (cells : List Cell) :
    RefusesData (a.reduce cells) := by
  obtain ⟨key, member, _⟩ := OrderedMap.mem_of_get? (resolve_eq_ok.1 found)
  refine (cellsOnly _ (List.mem_map_of_mem member) cells).imp ?_
  rintro _ ⟨_, _, rfl⟩
  rfl

end Catalog

end TableQuery
