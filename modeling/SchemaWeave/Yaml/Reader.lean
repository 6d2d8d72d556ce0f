import SchemaWeave.Yaml.Token

/-!
# Reading YAML

The part of YAML that configurations are written in: one document of block and flow
collections, scalars in every style, comments and document marks. Directives, tags and anchors
are refused, and so are keys that are no scalars.

## Missing nodes

Where a key, a value or an item of a block sequence is left out, there is the node without a
value.

## Termination

Every call is on fewer tokens or, one step down a fixed order of the functions, on the same
tokens. Both are counted in one measure.
-/

namespace SchemaWeave.Yaml

open Text

/-! ## Tokens after a missing node -/

/-- Whether a node in a block mapping is missing before a token. -/
def endsValue (t : Token) : Bool := t == .key || t == .value || t == .blockEnd

/-- Whether an item of a block sequence is missing before a token. -/
def endsItem (t : Token) : Bool := t == .dash || t == .blockEnd

/-- Whether an item of a sequence that is not indented is missing before a token. -/
def endsLooseItem (t : Token) : Bool := endsItem t || endsValue t

/-- Whether a value between brackets is missing before a token. -/
def endsFlowValue (closing t : Token) : Bool := t == .comma || t == closing

/-- Whether a key between brackets is missing before a token. -/
def endsFlowKey (closing t : Token) : Bool := t == .value || endsFlowValue closing t

/-! ## Nodes -/

/-- The text of a node that is a key. -/
def Node.key? : Node → Option String
  | .scalar s => some s.text
  | _ => none

mutual

/-- The node at the front. Where `loose` holds it may be a sequence that is not indented. -/
def readNode (loose : Bool) (ts : List Token) : Option (Node × Rest ts) :=
  match ts with
  | .scalar s :: ts => some (.scalar s, .tail (.scalar s) ts)
  | .openBracket :: ts => (readFlowItems ts).map fun (items, l) => (.sequence items, l.ofTail)
  | .openBrace :: ts => (readFlowEntries ts).map fun (es, l) => (.mapping es, l.ofTail)
  | .sequenceStart :: ts => (readItems ts).map fun (items, l) => (.sequence items, l.ofTail)
  | .mappingStart :: ts => (readEntries ts).map fun (es, l) => (.mapping es, l.ofTail)
  | .dash :: ts =>
    if loose then (readLooseItems (.dash :: ts)).map fun (items, l) => (.sequence items, l)
    else none
  | _ => none
termination_by 6 * ts.length + 1

/-- The node at the front, unless it is missing before the next token. -/
def readSlot (missing : Token → Bool) (loose : Bool) (ts : List Token) :
    Option (Node × Rest ts) :=
  match ts with
  | [] => none
  | t :: ts => if missing t then some (.absent, .all (t :: ts)) else readNode loose (t :: ts)
termination_by 6 * ts.length + 2

/-- The value after its mark, or no value where there is no mark. -/
def readValue (missing : Token → Bool) (loose : Bool) (ts : List Token) :
    Option (Node × Rest ts) :=
  match ts with
  | .value :: ts => (readSlot missing loose ts).map fun (n, l) => (n, l.ofTail)
  | ts => some (.absent, .all ts)
termination_by 6 * ts.length

/-- The entries of a block mapping up to its end. -/
def readEntries (ts : List Token) : Option (List (String × Node) × Rest ts) :=
  match ts with
  | .blockEnd :: ts => some ([], .tail .blockEnd ts)
  | .key :: ts =>
    match readSlot endsValue true ts with
    | none => none
    | some (key, l) =>
      match readValue endsValue true l.1 with
      | none => none
      | some (value, l') => do
        let (es, l'') ← readEntries l'.1
        return ((← key.key?, value) :: es, ((l.trans l').trans l'').ofTail)
  | .value :: ts =>
    match readSlot endsValue true ts with
    | none => none
    | some (value, l) => do
      let (es, l') ← readEntries l.1
      return ((← Node.absent.key?, value) :: es, (l.trans l').ofTail)
  | _ => none
termination_by 6 * ts.length

/-- The items of a block sequence up to its end. -/
def readItems (ts : List Token) : Option (List Node × Rest ts) :=
  match ts with
  | .blockEnd :: ts => some ([], .tail .blockEnd ts)
  | .dash :: ts =>
    match readSlot endsItem false ts with
    | none => none
    | some (item, l) =>
      (readItems l.1).map fun (items, l') => (item :: items, (l.trans l').ofTail)
  | _ => none
termination_by 6 * ts.length

/-- The items of a sequence that is not indented: it ends where no dash follows. -/
def readLooseItems (ts : List Token) : Option (List Node × Rest ts) :=
  match ts with
  | .dash :: ts =>
    match readSlot endsLooseItem false ts with
    | none => none
    | some (item, l) =>
      (readLooseItems l.1).map fun (items, l') => (item :: items, (l.trans l').ofTail)
  | ts => some ([], .all ts)
termination_by 6 * ts.length

/-- An item between brackets. A key with its value is a mapping of its own. -/
def readFlowItem (ts : List Token) : Option (Node × Rest ts) :=
  match ts with
  | .key :: ts =>
    match readSlot (endsFlowKey .closeBracket) false ts with
    | none => none
    | some (key, l) => do
      let (value, l') ← readValue (endsFlowValue .closeBracket) false l.1
      return (.mapping [(← key.key?, value)], (l.trans l').ofTail)
  | ts => readNode false ts
termination_by 6 * ts.length + 2

/-- The items up to the closing bracket, separated by commas, of which one may follow the last
item. -/
def readFlowItems (ts : List Token) : Option (List Node × Rest ts) :=
  match ts with
  | .closeBracket :: ts => some ([], .tail .closeBracket ts)
  | ts =>
    match readFlowItem ts with
    | none => none
    | some (item, ⟨.closeBracket :: rest, h⟩) => some ([item], .trans ⟨_, h⟩ (.tail _ rest))
    | some (item, ⟨.comma :: rest, h⟩) =>
      (readFlowItems rest).map fun (items, l) => (item :: items, .trans ⟨_, h⟩ l.ofTail)
    | some _ => none
termination_by 6 * ts.length + 3

/-- An entry between braces. Without a mark what stands there is a key without a value. -/
def readFlowEntry (ts : List Token) : Option ((String × Node) × Rest ts) :=
  match ts with
  | .key :: ts =>
    match readSlot (endsFlowKey .closeBrace) false ts with
    | none => none
    | some (key, l) => do
      let (value, l') ← readValue (endsFlowValue .closeBrace) false l.1
      return ((← key.key?, value), (l.trans l').ofTail)
  | .value :: ts => do
    let (value, l) ← readSlot (endsFlowValue .closeBrace) false ts
    return ((← Node.absent.key?, value), l.ofTail)
  | ts => do
    let (key, l) ← readNode false ts
    return ((← key.key?, .absent), l)
termination_by 6 * ts.length + 2

/-- The entries up to the closing brace, separated as items are. -/
def readFlowEntries (ts : List Token) : Option (List (String × Node) × Rest ts) :=
  match ts with
  | .closeBrace :: ts => some ([], .tail .closeBrace ts)
  | ts =>
    match readFlowEntry ts with
    | none => none
    | some (entry, ⟨.closeBrace :: rest, h⟩) => some ([entry], .trans ⟨_, h⟩ (.tail _ rest))
    | some (entry, ⟨.comma :: rest, h⟩) =>
      (readFlowEntries rest).map fun (es, l) => (entry :: es, .trans ⟨_, h⟩ l.ofTail)
    | some _ => none
termination_by 6 * ts.length + 3

end

/-! ## Documents -/

/-- The node of a document after the mark of its start. -/
def readMarked (ts : List Token) : Option (Node × Rest ts) :=
  match ts with
  | [] => some (.absent, .all [])
  | t :: ts =>
    if t == .documentStart || t == .documentEnd then some (.absent, .all (t :: ts))
    else readNode false (t :: ts)

/-- The node of the one document that is a list of tokens. -/
def Node.ofTokens? (ts : List Token) : Option Node :=
  let read : Option (Node × List Token) := match ts with
    | .documentStart :: ts => (readMarked ts).map fun (n, l) => (n, l.1)
    | ts => (readNode false ts).map fun (n, l) => (n, l.1)
  match read with
  | some (n, rest) => if rest.all (· == .documentEnd) then some n else none
  | none => none

/-- The node that a text describes, if it holds one document. -/
def Node.ofText? (s : String) : Option Node := (tokens? s).bind Node.ofTokens?

end SchemaWeave.Yaml
