/-
LineScript/CommandLine/Options.lean

The options of the command line.

    [-v]… [-d | --debug] [--lang EN|FR] [--debug-file FILE] [--version] [-h | --help] [program]

Each argument is classified first, on its own (`classify`):

* everything behind a `--` is a word;
* `--name` and `--name=text` are long options, and a name may be cut short as
  long as it stays the start of one option only; the start of several is
  refused before anything else is looked at;
* `-xyz` is a cluster of one-letter flags, if the first letter is one, and an
  equals sign right behind that letter may set the others off (`-x=yz`);
* what only looks like an option but is a negative number, or holds a space,
  is a word, and so is a single dash;
* all else that starts with a dash is unknown.

The arguments are then taken from left to right (`interpret`).  The first word
that no option takes is the program.  `--version` and `--help` act at once.  A
cluster is read whole before any of its flags acts, and one with an unknown
letter is refused on the spot; a second word or an unknown option is remembered
and refused only at the end.

Option parsers of the common library do not agree on a few spellings from release to
release.  What is meant here are the releases up to 3.11.8: there `-v=d` and `-h=v` are
the clusters `-vd` and `-hv`, an unknown letter in a cluster is refused on the spot, and
`--debug-file=--` asks for no file.
-/
import LineScript.Failure.Catalogue

namespace LineScript.CommandLine

/-! ### Types -/

/-- The options by what they do. -/
inductive Switch where
  | verbose
  | echo
  | language
  | traceFile
  | version
  | help
deriving DecidableEq

/-- What the command line asks for. -/
structure Options where
  verbosity : Nat := 0
  echo : Bool := false
  language : Language := .english
  traceFile : Option String := none
  program : Option String := none
deriving DecidableEq

/-- What comes of reading the command line. -/
inductive Command where
  | start (options : Options)
  | version
  | help
  | misuse
deriving DecidableEq

/-- An argument, classified. -/
inductive Argument where
  | word (text : String)
  | divider
  | long (switch : Switch) (given : Option String)
  | cluster (letters : List Char)
  | unknown
deriving DecidableEq

namespace Switch

/-- The options with long names. -/
def longNames : List (String × Switch) :=
  [("--debug", echo), ("--lang", language), ("--debug-file", traceFile),
    ("--version", version), ("--help", help)]

/-- The option of a letter. -/
def ofLetter? (c : Char) : Option Switch :=
  if c = 'v' then some verbose
  else if c = 'd' then some echo
  else if c = 'h' then some help
  else none

/-- Whether an option takes a text. -/
def takesText : Switch → Bool
  | language | traceFile => true
  | _ => false

end Switch

/-! ### Classifying -/

/-- The digits zero of the scripts that write decimal numbers; each is
followed by the other nine. -/
def zeroDigits : List Nat :=
  [0x30, 0x660, 0x6F0, 0x7C0, 0x966, 0x9E6, 0xA66, 0xAE6, 0xB66, 0xBE6, 0xC66, 0xCE6, 0xD66,
    0xDE6, 0xE50, 0xED0, 0xF20, 0x1040, 0x1090, 0x17E0, 0x1810, 0x1946, 0x19D0, 0x1A80, 0x1A90,
    0x1B50, 0x1BB0, 0x1C40, 0x1C50, 0xA620, 0xA8D0, 0xA900, 0xA9D0, 0xA9F0, 0xAA50, 0xABF0,
    0xFF10, 0x104A0, 0x10D30, 0x11066, 0x110F0, 0x11136, 0x111D0, 0x112F0, 0x11450, 0x114D0,
    0x11650, 0x116C0, 0x11730, 0x118E0, 0x11950, 0x11C50, 0x11D50, 0x11DA0, 0x16A60, 0x16AC0,
    0x16B50, 0x1D7CE, 0x1D7D8, 0x1D7E2, 0x1D7EC, 0x1D7F6, 0x1E140, 0x1E2F0, 0x1E950, 0x1FBF0]

/-- A decimal digit of any script. -/
def isAnyDigit (c : Char) : Bool :=
  zeroDigits.any fun z => z ≤ c.toNat && c.toNat < z + 10

/-- A number behind a minus sign: digits, or a point with digits behind it and
perhaps before it.  A line feed at the end makes no difference. -/
def looksNumeric (cs : List Char) : Bool :=
  let cs := if cs.getLast? = some '\n' then cs.dropLast else cs
  match cs.dropWhile isAnyDigit with
  | [] => !cs.isEmpty
  | '.' :: r => !r.isEmpty && r.all isAnyDigit
  | _ => false

/-- A text cut at its first equals sign, if it has one. -/
def cutAtEquals (cs : List Char) : List Char × Option (List Char) :=
  match cs.dropWhile (· != '=') with
  | _ :: r => (cs.takeWhile (· != '='), some r)
  | [] => (cs, none)

/-- What no option claims: a word, if it looks like a negative number or holds
a space, and otherwise unknown. -/
def unclaimed (text : String) : Argument :=
  if looksNumeric (text.toList.drop 1) || text.toList.contains ' ' then .word text
  else .unknown

/-- Classify an argument that starts with two dashes.  Gives nothing if it is
the start of several options. -/
def classifyLong (text : String) : Option Argument :=
  let (name, given) := cutAtEquals text.toList
  let given := given.map String.ofList
  match Switch.longNames.find? (·.1.toList == name) with
  | some (_, s) => some (.long s given)
  | none =>
    match Switch.longNames.filter fun p => name.isPrefixOf p.1.toList with
    | [] => some (unclaimed text)
    | [(_, s)] => some (.long s given)
    | _ => none

/-- Classify an argument that is not behind a divider. -/
def classifyOne (text : String) : Option Argument :=
  match text.toList with
  | ['-', '-'] => some .divider
  | '-' :: '-' :: _ => classifyLong text
  | '-' :: c :: r =>
    match Switch.ofLetter? c with
    | some _ => some (.cluster (c :: r))
    | none => some (unclaimed text)
  | _ => some (.word text)

/-- Classify all arguments. -/
def classify : List String → Option (List Argument)
  | [] => some []
  | a :: as =>
    match classifyOne a with
    | none => none
    | some .divider => some (.divider :: as.map .word)
    | some x => (classify as).map (x :: ·)

/-! ### Interpreting -/

/-- The reading of a command line so far: the options, whether the place of
the program is still free, and whether something is left over. -/
structure Reading where
  options : Options
  isFree : Bool := true
  hasRest : Bool := false

/-- The flags of a cluster.  Gives nothing if a letter of it is unknown, an
equals sign that does not set off the first letter included.  That one does, so that
`-v=d` is `-vd`, is the rule up to release 3.11.8. -/
def clusterFlags : List Char → Option (List Switch)
  | c :: '=' :: d :: r => (c :: d :: r).mapM Switch.ofLetter?
  | cs => cs.mapM Switch.ofLetter?

/-- Set the options of flags in order, or stop at one that acts at once. -/
def applyFlags (o : Options) : List Switch → Options ⊕ Command
  | [] => .inl o
  | .verbose :: ss => applyFlags { o with verbosity := o.verbosity + 1 } ss
  | .echo :: ss => applyFlags { o with echo := true } ss
  | .version :: _ => .inr .version
  | .help :: _ => .inr .help
  | _ :: ss => applyFlags o ss

/-- Set an option that takes a text.  Two dashes for a trace file stand for
none; this too is the rule up to release 3.11.8. -/
def applyText (o : Options) (s : Switch) (text : String) : Option Options :=
  match s with
  | .language => (Language.ofCode? text).map fun l => { o with language := l }
  | _ => some { o with traceFile := if text = "--" then none else some text }

/-- Take the arguments from left to right. -/
def interpret (r : Reading) : List Argument → Command
  | [] => if r.hasRest then .misuse else .start r.options
  | .word w :: .divider :: as =>
    if r.isFree then
      interpret { r with options := { r.options with program := some w }, isFree := false } as
    else interpret { r with hasRest := true } as
  | .word w :: as =>
    if r.isFree then
      interpret { r with options := { r.options with program := some w }, isFree := false } as
    else interpret { r with hasRest := true } as
  | .divider :: .word w :: as =>
    if r.isFree then
      interpret { r with options := { r.options with program := some w }, isFree := false } as
    else interpret { r with hasRest := true } as
  | .divider :: as =>
    interpret { r with isFree := false, hasRest := r.hasRest || !r.isFree } as
  | .unknown :: as => interpret { r with hasRest := true } as
  | .cluster letters :: as =>
    match clusterFlags letters with
    | none => .misuse
    | some flags =>
      match applyFlags r.options flags with
      | .inl o => interpret { r with options := o } as
      | .inr c => c
  | .long s (some text) :: as =>
    if s.takesText then
      match applyText r.options s text with
      | some o => interpret { r with options := o } as
      | none => .misuse
    else .misuse
  | .long s none :: as =>
    if s.takesText then
      match as with
      | .word text :: rest =>
        match applyText r.options s text with
        | some o => interpret { r with options := o } rest
        | none => .misuse
      | _ => .misuse
    else
      match applyFlags r.options [s] with
      | .inl o => interpret { r with options := o } as
      | .inr c => c

/-- Read the command line. -/
def command (arguments : List String) : Command :=
  match classify arguments with
  | some as => interpret ⟨{}, true, false⟩ as
  | none => .misuse

end LineScript.CommandLine
