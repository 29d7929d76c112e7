import Horn.Flags
import Horn.Json.Scan

namespace Horn

open Horn.Json

structure Config where
  doubleQuotes : DoubleQuotes
  chainRule : Bool
  unknown : Unknown
  maxExpansionDepth : Nat
  resourceRoot : Option String
  deriving DecidableEq, Repr

namespace Config

def standard : Config := ⟨.codes, true, .error, 64, none⟩

def joinPath (path name : String) : String :=
  if path = "" || path.toList.getLast? = some '/' then path ++ name else path ++ "/" ++ name

def libraryPath (root : String) : String := joinPath (joinPath root "lib") "builtins.pl"

def choice {α : Type} (ofText? : String → Option α) : Scan α := do
  let wrapped := (← Scan.peek) = '\x7b'
  if wrapped then Scan.expect '\x7b'
  let name ← Scan.string
  if wrapped then
    Scan.mark ':'
    Scan.blanks
    Scan.word "null"
    Scan.mark '\x7d'
  match ofText? name with
  | some a => return a
  | none => failure

inductive Field where
  | doubleQuotes
  | chainRule
  | unknown
  | maxExpansionDepth
  | resourceRoot
  deriving DecidableEq, Repr

def Field.table : List (String × Field) :=
  [("double_quotes", .doubleQuotes), ("chain_rule", .chainRule), ("unknown", .unknown),
   ("max_expansion_depth", .maxExpansionDepth), ("resource_root", .resourceRoot)]

def read (c : Config) : Field → Scan Config
  | .doubleQuotes => return { c with doubleQuotes := ← choice DoubleQuotes.ofText? }
  | .chainRule => return { c with chainRule := ← Scan.boolean }
  | .unknown => return { c with unknown := ← choice Unknown.ofText? }
  | .maxExpansionDepth => return { c with maxExpansionDepth := ← Scan.natural }
  | .resourceRoot => return { c with resourceRoot := some (← Scan.string) }

def readFields : Nat → List Field → Config → Scan Config
  | 0, _, _ => failure
  | n + 1, seen, c => do
    let name ← Scan.string
    Scan.mark ':'
    let (seen, c) ← match Field.table.lookup name with
      | none => do
        Scan.skip
        pure (seen, c)
      | some field =>
        if seen.contains field then failure
        else do
          let c ← read c field
          pure (field :: seen, c)
    Scan.blanks
    if ← Scan.optionally [','] then readFields n seen c
    else
      Scan.expect '\x7d'
      return c

def readValues (c : Config) : List Field → Scan Config
  | [] => do
    Scan.mark ']'
    return c
  | field :: rest => do
    let c ← read c field
    Scan.blanks
    if ← Scan.optionally [','] then
      if rest.isEmpty then failure else readValues c rest
    else
      Scan.expect ']'
      return c

def scan : Scan Config := do
  let c ← Scan.peek
  if c = '\x7b' then
    Scan.expect '\x7b'
    if (← Scan.peek) = '\x7d' then
      Scan.expect '\x7d'
      return standard
    else readFields (← get).length [] standard
  else
    Scan.expect '['
    if (← Scan.peek) = ']' then
      Scan.expect ']'
      return standard
    else readValues standard (Field.table.map (·.2))

def ofJson? (text : String) : Option Config := Scan.all scan text

end Config

end Horn
