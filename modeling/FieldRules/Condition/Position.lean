import FieldRules.Condition

/-!
# Positions

Where a condition stands in a list: the place of the top-level condition, and the
path from there through nested conditions.  The clauses of a list are counted with
every condition before the conditions nested in it.
-/

namespace FieldRules

/-- The position of a condition: the place of a top-level condition in its list,
and the path from there through nested conditions. -/
structure Position where
  index : Nat
  path : List Nat := []
deriving DecidableEq, Repr

namespace Position

/-- The position of a condition nested at a place in the condition here. -/
def child (p : Position) (place : Nat) : Position :=
  { p with path := p.path ++ [place] }

/-- The text of a position. -/
def text (p : Position) : String :=
  "[" ++ toString p.index ++ "]" ++
    String.join (p.path.map fun i => ".additional[" ++ toString i ++ "]")

end Position

namespace Condition

mutual

/-- The clauses of a condition with their positions: its own first, and then those
of the nested conditions. -/
def clauses (position : Position) : Condition → List (Position × Clause)
  | ⟨clause, nested⟩ => (position, clause) :: clausesNested position 0 nested

/-- The clauses of the conditions nested from a place on. -/
def clausesNested (position : Position) (place : Nat) :
    List Condition → List (Position × Clause)
  | [] => []
  | c :: cs => clauses (position.child place) c ++ clausesNested position (place + 1) cs

end

/-- The clauses of the conditions from a place of a list on. -/
def clausesFrom (index : Nat) : List Condition → List (Position × Clause)
  | [] => []
  | c :: cs => clauses ⟨index, []⟩ c ++ clausesFrom (index + 1) cs

/-- The clauses of a list of conditions, with their positions. -/
def clausesAll (conditions : List Condition) : List (Position × Clause) :=
  clausesFrom 0 conditions

end Condition
end FieldRules
