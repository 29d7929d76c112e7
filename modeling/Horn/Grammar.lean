import Horn.Term.Writer

/-!
# Grammar rules

Two arguments are added to each nonterminal, for the text before and after it.
-/

namespace Horn

inductive GrammarError where
  | notRule (t : Term)
  | head (t : Term)
  | pushback (t : Term)
  | terminals (t : Term)
  | body (t : Term)
  deriving DecidableEq, Repr

def GrammarError.message : GrammarError → String
  | .notRule t => "not a grammar rule: " ++ t.text
  | .head t => "invalid grammar rule head: " ++ t.text
  | .pushback t => "pushback must be a list: " ++ t.text
  | .terminals t => "terminals must form a proper list: " ++ t.text
  | .body t => "invalid grammar body: " ++ t.text

namespace Grammar

abbrev Threading (α : Type) := StateT Nat (Except GrammarError) α

def isRule (t : Term) : Bool := t.isFunctor "-->" 2

def freshVar : Threading Term := do
  let id ← get
  set (id + 1)
  return .var ("_S" ++ toString id) id

def unify (a b : Term) : Term := .compound "=" [a, b]

def conj (a b : Term) : Term := .compound "," [a, b]

def nonterminal? (t before after : Term) : Option Term :=
  match t with
  | .atom name => some (.build name [before, after])
  | .compound f args => some (.build f (args ++ [before, after]))
  | _ => none

/-- `before` is the members of the list followed by `after`. -/
def terminals (t before after : Term) : Threading Term :=
  match t.items? with
  | some items => return unify before (.listTo items after)
  | none => throw (.terminals t)

/-- A cut, which takes nothing of the text, or a nonterminal without arguments. -/
def plain (name : String) (before after : Term) : Term :=
  if name = "!" then conj (.atom "!") (unify before after) else .build name [before, after]

def bodyGoal : Term → Term → Term → Threading Term
  | .var name id, before, after => return .compound "phrase" [.var name id, before, after]
  | .number n, _, _ => throw (.body (.number n))
  | .cell h t, before, after => terminals (.cell h t) before after
  | .atom a, before, after =>
    if a = "[]" then return unify before after else return plain a before after
  | .compound f args, before, after =>
    match args with
    | [a, b] =>
      if f = "," then do
        let middle ← freshVar
        let left ← bodyGoal a before middle
        let right ← bodyGoal b middle after
        return conj left right
      else if f = ";" || f = "|" then do
        let left ← bodyGoal a before after
        let right ← bodyGoal b before after
        return .compound ";" [left, right]
      else if f = "->" || f = "*->" then do
        let middle ← freshVar
        let condition ← bodyGoal a before middle
        let consequence ← bodyGoal b middle after
        return .compound f [condition, consequence]
      else return .build f [a, b, before, after]
    | [g] =>
      if f = "\\+" then do
        let discarded ← freshVar
        let goal ← bodyGoal g before discarded
        return conj (.compound "\\+" [goal]) (unify before after)
      else if f = "\x7b\x7d" then return conj g (unify before after)
      else return .build f [g, before, after]
    | [] => return plain f before after
    | args => return .build f (args ++ [before, after])

def headParts : Term → Term × Option Term
  | .compound f [a, b] => if f = "," then (a, some b) else (.compound f [a, b], none)
  | t => (t, none)

def ruleClause (head body : Term) : Threading Term := do
  let before ← freshVar
  let after ← freshVar
  let (start, pushback) := headParts head
  match nonterminal? start before after with
  | none => throw (.head start)
  | some newHead =>
    match pushback with
    | none =>
      let newBody ← bodyGoal body before after
      return .compound ":-" [newHead, newBody]
    | some list =>
      if list.items?.isNone then throw (.pushback list)
      let middle ← freshVar
      let parsed ← bodyGoal body before middle
      let pushed ← terminals list after middle
      return .compound ":-" [newHead, conj parsed pushed]

def toClause (rule : Term) : Except GrammarError Term :=
  match rule with
  | .compound f [head, body] =>
    if f = "-->" then (·.1) <$> (ruleClause head body).run rule.idBound
    else .error (.notRule rule)
  | t => .error (.notRule t)

end Grammar

end Horn
