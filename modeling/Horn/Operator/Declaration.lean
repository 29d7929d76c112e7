import Horn.Term.Writer

namespace Horn

namespace OperatorTable

/-- Priorities that do not fit in 16 bits are no priorities at all. -/
def declaredPriority : Term → Except OperatorError Nat
  | .number (.int n) =>
    if 0 ≤ n.toInt && n.toInt < UInt16.size then .ok n.toInt.toNat
    else .error (.malformed ("priority " ++ toString n.toInt))
  | t => .error (.malformed ("priority " ++ t.text))

def declaredType : Term → Except OperatorError OpType
  | .atom spec =>
    match OpType.ofText? spec with
    | some type => .ok type
    | none => .error (.unknownType spec)
  | t => .error (.unknownType t.text)

def declaredNames (t : Term) : List Term :=
  match t with
  | .cell _ _ => t.items?.getD [t]
  | _ => [t]

def declareNames (t : OperatorTable) (priority : Nat) (type : OpType) :
    List Term → Except OperatorError Unit × OperatorTable
  | [] => (.ok (), t)
  | .atom name :: rest =>
    match t.declare priority type name with
    | .ok (_, t) => declareNames t priority type rest
    | .error e => (.error e, t)
  | other :: _ => (.error (.malformed ("operator name " ++ other.text)), t)

def declareTerms (t : OperatorTable) (priority type names : Term) :
    Except OperatorError Unit × OperatorTable :=
  match declaredPriority priority with
  | .error e => (.error e, t)
  | .ok priority =>
    match declaredType type with
    | .error e => (.error e, t)
    | .ok type => t.declareNames priority type (declaredNames names)

end OperatorTable

end Horn
