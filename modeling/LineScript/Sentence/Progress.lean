/-
LineScript/Sentence/Progress.lean

Reading a sentence token by token.

    sentence    ::= ("val" | "var") name ":" name
                  | ("val" | "var") name [":" name] "=" expression
                  | name "=" expression
                  | expression
    expression  ::= literal | name | name "(" [expression ("," expression)*] ")"

A `Progress` is what has been read of a sentence so far.  While an expression
is being read it remembers what the expression is for and which calls are
still open, the innermost first, each with the arguments read so far.  `feed`
takes the next token, and gives nothing if no sentence goes on that way;
`finish` gives the sentence if it may end here.

Every progress that `feed` gives can be completed, so the first token it
refuses is the first at which the text stops being the start of a sentence.
-/
import LineScript.Sentence

namespace LineScript.Sentence

/-! ### States -/

/-- What an expression is read for. -/
inductive Purpose where
  | result
  | assignment (name : String)
  | definition (isMutable : Bool) (name : String) (type : Option String)

/-- A call whose closing bracket has not come yet. -/
structure OpenCall where
  function : String
  arguments : List Phrase

/-- How far a sentence has been read. -/
inductive Progress where
  /-- Nothing yet. -/
  | start
  /-- The keyword of a declaration. -/
  | keyword (isMutable : Bool)
  /-- The declared name. -/
  | named (isMutable : Bool) (name : String)
  /-- The colon behind it. -/
  | typing (isMutable : Bool) (name : String)
  /-- The declared type. -/
  | typed (isMutable : Bool) (name type : String)
  /-- A name at the start. -/
  | leading (name : String)
  /-- An expression has to follow. -/
  | operand (purpose : Purpose) (calls : List OpenCall)
  /-- An opening bracket: an argument or the closing bracket has to follow. -/
  | opened (purpose : Purpose) (function : String) (calls : List OpenCall)
  /-- A name in an expression, which may turn out to be called. -/
  | reference (purpose : Purpose) (calls : List OpenCall) (name : String)
  /-- A complete expression. -/
  | complete (purpose : Purpose) (calls : List OpenCall) (value : Phrase)

namespace Purpose

/-- The sentence that a complete expression makes. -/
def close : Purpose → Phrase → Sentence
  | result, p => .expression p
  | assignment x, p => .assignment x p
  | definition m x t, p => .definition m x t p

end Purpose

namespace Progress

/-! ### Steps -/

/-- A token at the place of an operand: a literal, or a name. -/
def feedOperand (purpose : Purpose) (calls : List OpenCall) (t : Token) : Option Progress :=
  match t.kind with
  | .literal k => some (.complete purpose calls (.literal k t.text))
  | .name => some (.reference purpose calls t.text)
  | _ => none

/-- A token behind a complete expression: a comma or a closing bracket of the
innermost open call. -/
def feedComplete (purpose : Purpose) (calls : List OpenCall) (value : Phrase) (t : Token) :
    Option Progress :=
  match calls, t.kind with
  | c :: cs, .comma => some (.operand purpose (⟨c.function, c.arguments ++ [value]⟩ :: cs))
  | c :: cs, .closing =>
    some (.complete purpose cs (.call c.function (c.arguments ++ [value])))
  | _, _ => none

/-- Take the next token. -/
def feed (p : Progress) (t : Token) : Option Progress :=
  match p with
  | start =>
    match t.kind with
    | .val => some (keyword false)
    | .var => some (keyword true)
    | .name => some (leading t.text)
    | _ => feedOperand .result [] t
  | keyword m => if t.kind = .name then some (named m t.text) else none
  | named m x =>
    match t.kind with
    | .colon => some (typing m x)
    | .equals => some (operand (.definition m x none) [])
    | _ => none
  | typing m x => if t.kind = .name then some (typed m x t.text) else none
  | typed m x y =>
    if t.kind = .equals then some (operand (.definition m x (some y)) []) else none
  | leading x =>
    match t.kind with
    | .equals => some (operand (.assignment x) [])
    | .opening => some (opened .result x [])
    | _ => none
  | operand u cs => feedOperand u cs t
  | opened u f cs =>
    if t.kind = .closing then some (complete u cs (.call f []))
    else feedOperand u (⟨f, []⟩ :: cs) t
  | reference u cs x =>
    if t.kind = .opening then some (opened u x cs) else feedComplete u cs (.reference x) t
  | complete u cs e => feedComplete u cs e t

/-- The sentence that has been read, if it may end here. -/
def finish : Progress → Option Sentence
  | typed m x t => some (.declaration m x t)
  | leading x => some (.expression (.reference x))
  | reference u [] x => some (u.close (.reference x))
  | complete u [] e => some (u.close e)
  | _ => none

end Progress

/-! ### Whole texts -/

/-- A text that stops being a sentence at a column. -/
def refusal (column : Nat) : Failure :=
  .badStatement ("at position " ++ toString column)

/-- A character at a column that starts no token. -/
def strange (c : Char) (column : Nat) : Failure :=
  .badToken (Text.quoted (String.ofList [c]) ++ " at position " ++ toString column)

/-- Read on from a progress.  `last` is the column of the token read last,
where a text that ends too early is refused; `stuck` is the character that
follows the tokens, if it starts none itself. -/
def follow (stuck : Option (Char × Nat)) : Progress → Nat → List Token → Except Failure Sentence
  | p, _, t :: ts =>
    match p.feed t with
    | some q => follow stuck q t.column ts
    | none => .error (refusal t.column)
  | p, last, [] =>
    match stuck with
    | some (c, column) => .error (strange c column)
    | none =>
      match p.finish with
      | some s => .ok s
      | none => .error (refusal last)

/-- The sentence of a sequence of tokens. -/
def ofTokens (tokens : List Token) (stuck : Option (Char × Nat)) : Except Failure Sentence :=
  follow stuck .start 1 tokens

end LineScript.Sentence
