import SchemaAtlas.Failure
import SchemaAtlas.Schema.Snapshot

/-!
# `SchemaAtlas.Export.Order`: tables in an order in which they can be made

A table can be made when the tables it refers to are there. The order goes through the tables as
they stand and puts before each the tables it refers to, by name, unless they have had their
turn already. In a schema without cycles every table comes after all that it refers to. Turns
lie within one another along the references, and there is a limit to how many may.
-/

set_option autoImplicit false

namespace SchemaAtlas.Export

/-- The other tables that a table refers to, by name. -/
def references (t : Table) : List String :=
  ((t.foreignKeys.map ForeignKey.target).filter fun name => name != t.name).eraseDups.mergeSort
    fun a b => a ≤ b

/-- The tables that have had their turn, and those of them that are done, in order. -/
structure Visits where
  begun : List String := []
  done : List String := []

/-- How many tables may have their turn within one another. Every step into a reference is a call
within a call, and the runtime ends a chain of calls that grows longer than this. -/
def deepestTurn : Nat := 992

/-- The visits after one more table and all that it refers to. A name without a table and a table
that was begun before are passed over. `room` says how many tables may still begin within one
another, and a table that finds no room for its turn ends the whole visit. -/
def visit (tables : Catalog Table) (room : Nat) (visits : Visits) (name : String) :
    Except Failure Visits :=
  match tables.get? name with
  | none => .ok visits
  | some table =>
    if visits.begun.contains name then .ok visits
    else match room with
      | 0 => .error .tooDeep
      | room + 1 => do
        let within ← (references table).foldlM (visit tables room)
          { visits with begun := name :: visits.begun }
        return { within with done := within.done ++ [name] }

/-- The tables of a schema, each after those it refers to. There is no order if too many tables
have their turn within one another. -/
def ordered (s : Snapshot) : Except Failure (List Table) := do
  let visits ← s.tables.names.foldlM (visit s.tables deepestTurn) {}
  return visits.done.filterMap s.tables.get?

end SchemaAtlas.Export
