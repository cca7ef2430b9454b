import Bitonic.Network.Step
import Bitonic.Text.Quoted
/-!
# Written form of outer steps

Reports on a misplaced step show it in full, as a term with named fields and quoted names.
-/

namespace Bitonic

/-- A term: its name and its fields. -/
def term (name : String) (fields : List (String × String)) : String :=
  name ++ " \x7b " ++ ", ".intercalate (fields.map fun (f, v) => f ++ ": " ++ v) ++ " \x7d"

def termList (items : List String) : String := "[" ++ ", ".intercalate items ++ "]"

def LengthRow.text (row : LengthRow) : String :=
  term "DispatchEntry"
    [("width", Nat.repr row.width), ("min_len", Nat.repr row.minLength),
      ("max_len", Nat.repr row.maxLength), ("ascending", Text.quote row.ascending),
      ("descending", Text.quote row.descending)]

def LengthTable.text (table : LengthTable) : String :=
  term "DispatchTable"
    [("lanes", Nat.repr table.lanes), ("entries", termList (table.rows.map LengthRow.text)),
      ("fallback_above", Nat.repr table.longest)]

def TypeChoice.text (choice : TypeChoice) : String :=
  term "TypeTarget" [("element", choice.element.code), ("routine", Text.quote choice.routine)]

def OuterStep.text : OuterStep → String
  | load vectors residual pad =>
      term "Load" [("vectors", Nat.repr vectors), ("partial", residual.code),
        ("pad", pad.code)]
  | store vectors residual =>
      term "Store" [("vectors", Nat.repr vectors), ("partial", residual.code)]
  | byLength table => "Dispatch(" ++ table.text ++ ")"
  | byType choices => "SelectType(" ++ termList (choices.map TypeChoice.text) ++ ")"

end Bitonic
