namespace Horn.Text

structure CharRange where
  first : Nat
  last : Nat
  stride : Nat
  deriving DecidableEq, Repr

/-- Ranges without gaps, given by the lengths of what lies outside them and in them, in turn. -/
def stretches (start : Nat) : List Nat → List CharRange
  | outside :: inside :: rest =>
    ⟨start + outside, start + outside + inside - 1, 1⟩ :: stretches (start + outside + inside) rest
  | _ => []

/-- Ranges given in turn by how much lies before them, by their extents and by their strides. -/
def strides (start : Nat) : List Nat → List CharRange
  | outside :: inside :: stride :: rest =>
    ⟨start + outside, start + outside + inside - 1, stride⟩ ::
      strides (start + outside + inside) rest
  | _ => []

def CharRange.covers (r : CharRange) (c : Char) : Bool :=
  r.first ≤ c.toNat && c.toNat ≤ r.last && (c.toNat - r.first) % r.stride == 0

def covered (table : List CharRange) (c : Char) : Bool :=
  table.any (·.covers c)

end Horn.Text
