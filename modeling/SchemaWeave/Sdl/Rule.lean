import SchemaWeave.Sdl.Token

/-!
# Grammar rules

A rule takes tokens from the front of what is left and gives what they mean, or refuses. A
choice is made by looking at the next token, and is never taken back: once a rule has begun,
its refusal is the refusal of the whole text. Some choices hang on the token after the next
one as well; a comma between the two decides against.

## Termination

`repeatWhile` is the only loop. It insists that every round takes a token, so what is left
gets shorter.
-/

namespace SchemaWeave.Sdl

/-- A rule takes tokens from the front of what is left, or refuses. -/
abbrev Rule (α : Type) := StateT (List Lexeme) Option α

namespace Rule

variable {α : Type}

def refuse : Rule α := fun _ => none

/-- Whether the next token passes the test. -/
def nextIs (p : Token → Bool) : Rule Bool := fun ts => some (ts.head?.any (p ·.token), ts)

/-- Whether the token after the next one passes the test, with no comma before it. -/
def secondIs (p : Token → Bool) : Rule Bool := fun ts =>
  some (ts.tail.head?.any (fun t => !t.afterComma && p t.token), ts)

/-- Takes one token that the test accepts and gives what it means. -/
def take (f : Token → Option α) : Rule α
  | [] => none
  | t :: ts => (f t.token).map (·, ts)

/-- Takes a given punctuator. -/
def punctuator (p : Punctuator) : Rule Unit :=
  take fun t => if t = .punctuator p then some () else none

/-- Takes any name. -/
def name : Rule Name :=
  take fun t => match t with
    | .name n => some n
    | _ => none

/-- Takes a name with a given spelling. -/
def keyword (s : String) : Rule Unit :=
  take fun t => match t with
    | .name n => if n.text = s then some () else none
    | _ => none

def isPunctuator (p : Punctuator) (t : Token) : Bool := t = .punctuator p

def isName : Token → Bool
  | .name _ => true
  | _ => false

def isString : Token → Bool
  | .string _ => true
  | _ => false

def isKeyword (s : String) : Token → Bool
  | .name n => n.text = s
  | _ => false

/-- The rule where the next token passes the test, and `none` without taking anything where
it does not. -/
def optionalIf (p : Token → Bool) (r : Rule α) : Rule (Option α) := do
  if ← nextIs p then return some (← r) else return none

/-- The rule as long as the next token passes the test. -/
def repeatWhile (p : Token → Bool) (r : Rule α) (ts : List Lexeme) :
    Option (List α × List Lexeme) :=
  match ts with
  | [] => some ([], [])
  | t :: tail =>
    if p t.token then
      match r (t :: tail) with
      | none => none
      | some (a, rest) =>
        if rest.length ≤ tail.length then
          (repeatWhile p r rest).map fun (as, rest') => (a :: as, rest')
        else none
    else some ([], t :: tail)
termination_by ts.length
decreasing_by exact Nat.lt_succ_of_le (by assumption)

/-- As `repeatWhile`, with one round at least. -/
def repeatSome (p : Token → Bool) (r : Rule α) : Rule (List α) := do
  let first ← r
  let more ← repeatWhile p r
  return first :: more

/-- One or more rounds between two punctuators; each round starts with a token that passes the
test. -/
def enclosed (opening closing : Punctuator) (p : Token → Bool) (r : Rule α) : Rule (List α) := do
  punctuator opening
  let items ← repeatSome p r
  punctuator closing
  return items

/-- One or more rounds with a punctuator between them, which may also stand in front. -/
def separated (separator : Punctuator) (r : Rule α) : Rule (List α) := do
  let _ ← optionalIf (isPunctuator separator) (punctuator separator)
  let first ← r
  let more ← repeatWhile (isPunctuator separator) (do punctuator separator; r)
  return first :: more

end Rule

end SchemaWeave.Sdl
