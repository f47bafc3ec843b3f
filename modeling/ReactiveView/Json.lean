import ReactiveView.Value
import ReactiveView.Text.Quoted

/-!
# JSON documents

The exchange format of plain data.  A document has no undefined value and no infinite number; an
array is read as an object whose keys are its positions in decimal.
-/

namespace ReactiveView

/-- A JSON document.  The fields of an object are in ascending key order, and a number is the double
    that it is read as. -/
inductive Json where
  | null
  | bool (b : Bool)
  | number (n : Binary64)
  | text (s : String)
  | array (items : List Json)
  | object (fields : List (String × Json))
  deriving Inhabited, Repr

/-! ## 1. From values to documents -/

namespace Value

mutual

/-- The document of a value: `undefined` and numbers that are not finite become `null`. -/
def toJson : Value → Json
  | undefined => .null
  | null => .null
  | bool b => .bool b
  | number n => if n.isFinite then .number n else .null
  | text s => .text s
  | object fields => .object (fieldsToJson fields)

/-- The documents of the entries of a field list, under the same keys. -/
def fieldsToJson : List (String × Value) → List (String × Json)
  | [] => []
  | (k, v) :: rest => (k, toJson v) :: fieldsToJson rest

end

/-! ## 2. From documents to values -/

/-- Pairs the values with their positions in decimal, counting from `i`. -/
def positioned : (i : Nat) → List Value → List (String × Value)
  | _, [] => []
  | i, v :: rest => (i.repr, v) :: positioned (i + 1) rest

mutual

/-- The value of a document; an array becomes an object keyed by position. -/
def ofJson : Json → Value
  | .null => null
  | .bool b => bool b
  | .number n => number n
  | .text s => text s
  | .array items => ofFields (positioned 0 (itemsOfJson items))
  | .object fields => object (fieldsOfJson fields)

/-- The values of the items of an array. -/
def itemsOfJson : List Json → List Value
  | [] => []
  | j :: rest => ofJson j :: itemsOfJson rest

/-- The values of the entries of a field list, under the same keys. -/
def fieldsOfJson : List (String × Json) → List (String × Value)
  | [] => []
  | (k, j) :: rest => (k, ofJson j) :: fieldsOfJson rest

end

end Value

/-! ## 3. Printing documents -/

namespace Json

/-- A character as it stands inside a JSON string. -/
def escapeChar (c : Char) : String :=
  if c = '"' then "\\\""
  else if c = '\\' then "\\\\"
  else if c = '\n' then "\\n"
  else if c = '\r' then "\\r"
  else if c = '\t' then "\\t"
  else if c.toNat = 8 then "\\b"
  else if c.toNat = 12 then "\\f"
  else if c.toNat < 32 then
    "\\u00" ++ (if c.toNat < 16 then "0" else "") ++ Text.hexadecimal c.toNat
  else c.toString

/-- A JSON string. -/
def quote (s : String) : String :=
  "\"" ++ String.join (s.toList.map escapeChar) ++ "\""

/-- The start of a line, `depth` levels deep. -/
def newLine (depth : Nat) : String :=
  "\n" ++ String.join (List.replicate depth "  ")

mutual

/-- The document over several lines, indented by two blanks a level from `depth` on; what is empty
    stays on its line. -/
def prettyAt (depth : Nat) : Json → String
  | null => "null"
  | bool b => if b then "true" else "false"
  | number n => n.json
  | text s => quote s
  | array [] => "[]"
  | array (j :: rest) =>
    "[" ++ newLine (depth + 1) ++ prettyAt (depth + 1) j ++ prettyItems (depth + 1) rest ++
      newLine depth ++ "]"
  | object [] => "\x7b\x7d"
  | object ((k, j) :: rest) =>
    "\x7b" ++ newLine (depth + 1) ++ quote k ++ ": " ++ prettyAt (depth + 1) j ++
      prettyFields (depth + 1) rest ++ newLine depth ++ "\x7d"

/-- The items after the first one. -/
def prettyItems (depth : Nat) : List Json → String
  | [] => ""
  | j :: rest => "," ++ newLine depth ++ prettyAt depth j ++ prettyItems depth rest

/-- The fields after the first one. -/
def prettyFields (depth : Nat) : List (String × Json) → String
  | [] => ""
  | (k, j) :: rest =>
    "," ++ newLine depth ++ quote k ++ ": " ++ prettyAt depth j ++ prettyFields depth rest

end

/-- The document over several lines. -/
def pretty (j : Json) : String := prettyAt 0 j

end Json

end ReactiveView
