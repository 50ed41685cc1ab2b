/-
LineScript/Store.lean

The store: which names are declared, and what they hold.

Names lead to symbols, and symbols to values.  A symbol records the declared
class of its name and whether it may be given a value more than once.

* A name is declared at most once, and never withdrawn.
* An immutable name takes one value.
* A value must have exactly the declared class of its name.

The type in a declaration is itself a name, and must hold a class.  Failures
are found in a fixed order: for a declaration, a taken name, then a type that
holds nothing, then one that holds no class; for an assignment, an undeclared
name, then an immutable one that is set, then a class that does not fit.

An operation that fails leaves the store as it was, except for the ones made
of several steps, which keep what they have done; those give the new store
beside their outcome.
-/
import LineScript.Table
import LineScript.Value

namespace LineScript

/-- What is known of a declared name. -/
structure Symbol where
  name : String
  declared : Class
  isMutable : Bool
deriving DecidableEq

/-- The declared names and their values. -/
structure Store where
  symbols : Table String Symbol
  values : Table Symbol Value

namespace Store

/-- The store without names. -/
def empty : Store := ⟨.empty, .empty⟩

/-! ### Looking up -/

/-- Whether a name is declared. -/
def isDefined (s : Store) (name : String) : Bool :=
  s.symbols.contains name

/-- The symbol of a declared name. -/
def getSymbol (s : Store) (name : String) : Except Fault Symbol :=
  match s.symbols.find? name with
  | some y => .ok y
  | none => .error (.failure (.undefined name))

/-- The value of a name that is declared and set. -/
def get (s : Store) (name : String) : Except Fault Value := do
  let y ← s.getSymbol name
  match s.values.find? y with
  | some v => return v
  | none => throw (.failure (.unset name))

/-- The function that a name holds. -/
def getFunction (s : Store) (name : String) : Except Fault Function := do
  let v ← s.get name
  match v.asFunction? with
  | some f => return f
  | none =>
    let c ← v.classOf
    throw (.failure (.unexpected name Class.function.name c.name))

/-- The class that a name holds, if it holds one. -/
def lookupClass? (s : Store) (name : String) : Option Class := do
  let y ← s.symbols.find? name
  let v ← s.values.find? y
  v.asClass?

/-! ### Declaring and assigning -/

/-- The class that a type in a declaration stands for. -/
def resolveType (s : Store) (type : String) : Except Fault Class :=
  match (s.symbols.find? type).bind s.values.find? with
  | none => .error (.failure (.noType type))
  | some v =>
    match v.asClass? with
    | some c => .ok c
    | none => do
      let _ ← v.classOf
      throw (.failure (.noClass type))

/-- Declare a name with a type; it holds nothing yet. -/
def declare (s : Store) (name type : String) (isMutable : Bool) : Except Fault Store :=
  if s.isDefined name then .error (.failure (.taken name))
  else do
    let c ← s.resolveType type
    return { s with symbols := s.symbols.insert name ⟨name, c, isMutable⟩ }

/-- Give a declared name a value. -/
def assign (s : Store) (name : String) (v : Value) : Except Fault Store := do
  let y ← s.getSymbol name
  if s.values.contains y && !y.isMutable then throw (.failure (.immutable name))
  let c ← v.classOf
  if y.declared.fits c then return { s with values := s.values.insert y v }
  else throw (.failure (.unexpected name y.declared.name c.name))

/-- Declare a name with the class of a value and give it that value.  Gives
the store as it is in the end, also after a failure. -/
def declareAndAssign (s : Store) (name : String) (v : Value) (isMutable : Bool) :
    Store × Except Fault Unit :=
  if s.isDefined name then (s, .error (.failure (.taken name)))
  else
    match v.classOf with
    | .error e => (s, .error e)
    | .ok c =>
      match s.declare name c.name isMutable with
      | .error e => (s, .error e)
      | .ok t =>
        match t.assign name v with
        | .error e => (t, .error e)
        | .ok u => (u, .ok ())

/-! ### Registering -/

/-- Bind a name to a value for good.  Doing so again with an equal value
changes nothing. -/
def register (s : Store) (name : String) (v : Value) : Except Fault Store :=
  match s.symbols.find? name with
  | some y =>
    match s.values.find? y with
    | some w => if w.equal v then .ok s else .error (.failure (.taken name))
    | none => .error (.failure (.taken name))
  | none => do
    let c ← v.classOf
    let y : Symbol := ⟨name, c, false⟩
    return ⟨s.symbols.insert name y, s.values.insert y v⟩

/-- Check that classes hold themselves under their names. -/
def checkClasses (s : Store) : List Class → Except Fault Unit
  | [] => .ok ()
  | c :: cs =>
    if s.lookupClass? c.name = some c then s.checkClasses cs
    else .error (.failure (.noClass c.name))

/-- Register a function, all of whose classes must be known. -/
def registerFunction (s : Store) (f : Function) : Except Fault Store := do
  s.checkClasses f.signature.mentioned
  s.register f.signature.name f.toValue

/-- Register classes up to the first that cannot be. -/
def registerClasses (s : Store) : List Class → Store × Except Fault Unit
  | [] => (s, .ok ())
  | c :: cs =>
    match s.register c.name (.ofClass c) with
    | .ok t => t.registerClasses cs
    | .error e => (s, .error e)

/-- Register functions up to the first that cannot be. -/
def registerFunctions (s : Store) : List Function → Store × Except Fault Unit
  | [] => (s, .ok ())
  | f :: fs =>
    match s.registerFunction f with
    | .ok t => t.registerFunctions fs
    | .error e => (s, .error e)

/-- The store with the built-in classes. -/
def withClasses : Store :=
  (empty.registerClasses Class.builtin).1

/-- The store with the built-in classes and some functions. -/
def seeded (functions : List Function) : Store × Except Fault Unit :=
  withClasses.registerFunctions functions

/-- The store with the built-in classes and the standard functions. -/
def standard : Store :=
  (seeded Function.standard).1

/-! ### Listing -/

/-- The symbols that another store lacks, sorted by name, each with its
value. -/
def addedSince (s base : Store) : List (Symbol × Option Value) :=
  let added := (s.symbols.entries.map Prod.snd).filter fun y => !base.isDefined y.name
  let sorted := added.mergeSort fun x y => decide (x.name ≤ y.name)
  sorted.map fun y => (y, s.values.find? y)

end Store

end LineScript
