import TableQuery.Proofs.Grouping.Select
import TableQuery.Proofs.Statement.Erasure
import TableQuery.Query.Run

/-! # Clauses without their marks

No step of a query looks at the marks of the nodes that it reads, whether it
makes a test, a call or an item of them, or a name or an alias.
-/

namespace TableQuery

variable {α : Type}

namespace Table

theorem rowTest_erase (header : Header) (settings : Settings) (item : Node α) :
    rowTest header settings item.erase = rowTest header settings item := by
  rw [rowTest, rowTest, Node.test_erase, bind_map_left]
  simp only [Test.erase, Node.tag_erase, Node.name_erase, Node.malformed_erase]

theorem filterBy_erase (t : Table) (settings : Settings) (clause : Node α) :
    t.filterBy settings clause.erase = t.filterBy settings clause := by
  rw [filterBy, filterBy, Node.conditionOf_erase, bind_map_left]
  simp only [Formula.ofNode_erase (rowTest_erase t.header settings)]

end Table

namespace Grouping

variable (g : Grouping)

theorem call_erase (n : Node α) : g.call n.erase = g.call n := by
  induction n using Node.induction with
  | step n ih =>
    rw [call_eq, call_eq, Node.name_erase, Node.argument_erase]
    cases argued : n.argument with
    | error refusal => rfl
    | ok arg =>
      rw [map_ok, ok_bind, ok_bind, callOn, callOn, Node.kind_erase, Node.name_erase,
        ih arg (Node.mem_of_argument argued)]

theorem operand_erase (n : Node α) : g.operand n.erase = g.operand n := by
  rw [operand, operand, Node.tag_erase, call_erase, Node.name_erase]

theorem groupTest_erase (item : Node α) : g.groupTest item.erase = g.groupTest item := by
  rw [groupTest, groupTest, Node.test_erase, bind_map_left]
  simp only [Test.erase, operand_erase]

theorem having_erase (clause : Node α) : g.having clause.erase = g.having clause := by
  rw [having, having, Node.conditionOf_erase, bind_map_left]
  simp only [Formula.ofNode_erase g.groupTest_erase]

theorem expressionItem_erase (expression : Node α) :
    g.expressionItem expression.erase = g.expressionItem expression := by
  simp only [expressionItem, Node.kind_erase, Node.name_erase, Node.heading_erase, call_erase,
    Node.malformed_erase]

theorem item_erase (n : Node α) : g.item n.erase = g.item n := by
  by_cases isItem : n.tag = .selectItem
  · rw [item_of_selectItem isItem, item_of_selectItem (n.tag_erase.trans isItem),
      Node.itemExpression_erase, bind_map_left]
    simp only [expressionItem_erase]
  · have noItem : n.erase.tag ≠ .selectItem := by rwa [Node.tag_erase]
    rw [item_of_expression isItem, item_of_expression noItem, expressionItem_erase]

theorem select_erase (nodes : List (Node α)) :
    g.select (nodes.map Node.erase) = g.select nodes := by
  rw [select, select, List.mapM_map]
  simp only [Function.comp_def, item_erase]

end Grouping

namespace Node

theorem mapM_position_erase (header : Header) (columns : List (Node α)) :
    ((columns.map erase).mapM fun column => do header.position (← column.name)) =
      (columns.mapM fun column => do header.position (← column.name)) := by
  rw [List.mapM_map]
  simp only [Function.comp_def, name_erase]

theorem itemAlias_erase (header : Header) (item : Node α) :
    item.erase.itemAlias header = item.itemAlias header := by
  simp only [itemAlias, alias?_erase, itemExpression_erase, bind_map_left, kind_erase, name_erase,
    heading_erase]

theorem addAliases_erase (items : List (Node α)) (t : Table) :
    addAliases (items.map erase) t = addAliases items t := by
  rw [addAliases, addAliases, List.mapM_map]
  simp only [Function.comp_def, itemAlias_erase]

theorem selectsFunction_erase (item : Node α) :
    item.erase.selectsFunction = item.selectsFunction := by
  rw [selectsFunction, selectsFunction, children_erase, List.head?_map, Option.any_map]
  simp only [tag_erase]

theorem selectedNames_erase (header : Header) (item : Node α) :
    selectedNames header item.erase = selectedNames header item := by
  simp only [selectedNames, itemExpression_erase, bind_map_left, kind_erase, name_erase]

theorem selectRows_erase (items : List (Node α)) (t : Table) :
    selectRows (items.map erase) t = selectRows items t := by
  rw [selectRows, selectRows, List.mapM_map]
  simp only [Function.comp_def, selectedNames_erase]

end Node

end TableQuery
