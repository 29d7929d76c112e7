namespace Horn.Text

/-- One line of a source, its line feed included. No line is empty. -/
inductive Line where
  | text (first : Char) (rest : List Char)
  | undecodable (first : UInt8) (rest : List UInt8)
  /-- The reader itself reports malformed data and takes nothing. -/
  | refused
  deriving DecidableEq, Repr

def Line.size : Line → Nat
  | .text _ rest => rest.length + 1
  | .undecodable _ rest => rest.length + 1
  | .refused => 1

inductive Failure where
  /-- The reader reports malformed data each time it is asked. -/
  | refusing
  | broken (reason : String)
  deriving DecidableEq, Repr

structure Source where
  lines : List Line
  /-- Why reads past the last line fail; `none` when they report the end of the text. -/
  failure : Option Failure
  deriving DecidableEq, Repr

namespace Source

def linesSize : List Line → Nat
  | [] => 0
  | line :: rest => line.size + linesSize rest

def size (s : Source) : Nat := linesSize s.lines

def cutAfter {α : Type} (p : α → Bool) (items : List α) : List (List α) :=
  items.foldr
    (fun a lines =>
      if p a then [a] :: lines
      else match lines with
        | [] => [[a]]
        | line :: rest => (a :: line) :: rest)
    []

def textLine? : List Char → Option Line
  | [] => none
  | c :: rest => some (.text c rest)

def byteLine? : List UInt8 → Option Line
  | [] => none
  | b :: rest =>
    match String.fromUTF8? (ByteArray.mk (b :: rest).toArray) with
    | some s => textLine? s.toList
    | none => some (.undecodable b rest)

def ofChars (cs : List Char) : Source :=
  ⟨(cutAfter (· = '\n') cs).filterMap textLine?, none⟩

def ofText (s : String) : Source := ofChars s.toList

def lineFeed : UInt8 := 10

def ofBytes (bytes : List UInt8) : Source :=
  ⟨(cutAfter (· = lineFeed) bytes).filterMap byteLine?, none⟩

/-- A source that fails after `bytes`. The failure swallows a line that has not ended. -/
def failing (bytes : List UInt8) (reason : String) : Source :=
  let whole := (cutAfter (· = lineFeed) bytes).filter (·.getLast? = some lineFeed)
  ⟨whole.filterMap byteLine?, some (.broken reason)⟩

end Source

end Horn.Text
