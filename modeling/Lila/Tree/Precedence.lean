/-!
# Operator precedence
-/

namespace Lila

def precedences : List (String × Nat) := [("+", 20), ("-", 20), ("*", 40)]

/-- How tightly an operator binds. One that is not in the table binds least. -/
def precedence (op : String) : Nat := (precedences.lookup op).getD 0

end Lila
