import TaskGraph.Data.Value
import TaskGraph.Text.Blank

/-!
Which values count as true.
-/

namespace TaskGraph.Value

/-- The words, in lower case, that count as false. -/
def falseWords : List String := ["","false","0","null","no","off"]

/-- Null, zero, empty collections and the false words are false. -/
def isTruthy : Value → Bool
  | .null => false
  | .bool b => b
  | .int n => n != 0
  | .float d => !d.isZero && !d.isNaN
  | .string s => !falseWords.contains (Text.lowerLatin (Text.trim s))
  | .array items => !items.isEmpty
  | .object fields => !fields.isEmpty

end TaskGraph.Value
