import Horn.Text.Visible

namespace Horn

open Horn.Text

inductive Json where
  | null
  | bool (b : Bool)
  | number (n : Nat)
  | string (text : String)
  | array (items : List Json)
  | object (fields : List (String × Json))
  deriving Repr

namespace Json

/-- Characters below the blank have no spelling of their own. -/
def charText (c : Char) : String :=
  if c = '"' then "\\\""
  else if c = '\\' then "\\\\"
  else if c = '\n' then "\\n"
  else if c = '\r' then "\\r"
  else if c = '\t' then "\\t"
  else if c.toNat = 8 then "\\b"
  else if c.toNat = 12 then "\\f"
  else if c.toNat < 16 then "\\u000" ++ hexDigits c.toNat
  else if c.toNat < 32 then "\\u00" ++ hexDigits c.toNat
  else String.singleton c

def stringText (s : String) : String := "\"" ++ String.join (s.toList.map charText) ++ "\""

def newLine (level : Nat) : String := "\n" ++ String.ofList (List.replicate (2 * level) ' ')

mutual

def textAt (level : Nat) : Json → String
  | .null => "null"
  | .bool b => if b then "true" else "false"
  | .number n => toString n
  | .string s => stringText s
  | .array items =>
    match items with
    | [] => "[]"
    | item :: rest =>
      "[" ++ newLine (level + 1) ++ textAt (level + 1) item ++ itemsText (level + 1) rest ++
        newLine level ++ "]"
  | .object fields =>
    match fields with
    | [] => "\x7b\x7d"
    | (name, value) :: rest =>
      "\x7b" ++ newLine (level + 1) ++ stringText name ++ ": " ++ textAt (level + 1) value ++
        fieldsText (level + 1) rest ++ newLine level ++ "\x7d"

def itemsText (level : Nat) : List Json → String
  | [] => ""
  | item :: rest => "," ++ newLine level ++ textAt level item ++ itemsText level rest

def fieldsText (level : Nat) : List (String × Json) → String
  | [] => ""
  | (name, value) :: rest =>
    "," ++ newLine level ++ stringText name ++ ": " ++ textAt level value ++ fieldsText level rest

end

def text (j : Json) : String := textAt 0 j

end Json

end Horn
