/-
LineScript/Text/Lines.lean

Where a text is cut into lines.

Two cuts are made.  A program is cut at every line end of Unicode, with a
carriage return and line feed counting as one end (`splitLines`).  The lines
typed by a user are cut at line feeds only (`inputLines`).  Both come from
one function, `cutAt`, in which the marks are dropped and a text that ends
with a mark has no empty line after it.

A stored text may also be read with its carriage returns turned into line
feeds (`unifyLineEnds`).
-/

namespace LineScript.Text

/-! ### Cutting at marks -/

/-- Put `c` in front of the first line. -/
def consFirst (c : Char) : List (List Char) → List (List Char)
  | [] => [[c]]
  | l :: ls => (c :: l) :: ls

/-- Cut a text after each mark, and drop the marks.  A last piece that no
mark closes counts if it is not empty. -/
def cutAt (isMark : Char → Bool) : List Char → List (List Char)
  | [] => []
  | c :: r => if isMark c then [] :: cutAt isMark r else consFirst c (cutAt isMark r)

@[simp] theorem cutAt_nil (p : Char → Bool) : cutAt p [] = [] := rfl

theorem cutAt_mark {p : Char → Bool} {c : Char} (h : p c = true) (r : List Char) :
    cutAt p (c :: r) = [] :: cutAt p r := by
  simp [cutAt, h]

/-- A piece without marks and the mark after it make one line. -/
theorem cutAt_append_mark {p : Char → Bool} {l : List Char} {m : Char}
    (hl : ∀ c ∈ l, p c = false) (hm : p m = true) (r : List Char) :
    cutAt p (l ++ m :: r) = l :: cutAt p r := by
  induction l with
  | nil => exact cutAt_mark hm r
  | cons c l ih =>
    have hc : p c = false := hl c (by simp)
    have ih := ih fun x hx => hl x (by simp [hx])
    simp [cutAt, hc, ih, consFirst]

/-! ### Line ends -/

/-- The characters that end a line of a program: line feed to carriage
return, the file, group and record separators, next line, and the line and
paragraph separators. -/
def isLineEnd (c : Char) : Bool :=
  let n := c.toNat
  (0x0A ≤ n && n ≤ 0x0D) || (0x1C ≤ n && n ≤ 0x1E) || n == 0x85 ||
    n == 0x2028 || n == 0x2029

/-- Turn each carriage return that a line feed follows into that line feed
alone, so that the pair ends one line. -/
def mergeReturns : List Char → List Char
  | [] => []
  | c :: r =>
    if c == '\r' && r.head? == some '\n' then mergeReturns r else c :: mergeReturns r

/-- The lines of a program text. -/
def splitLines (cs : List Char) : List (List Char) :=
  cutAt isLineEnd (mergeReturns cs)

/-- The lines of a user's input, which only a line feed ends. -/
def inputLines (cs : List Char) : List (List Char) :=
  cutAt (· == '\n') cs

/-- Write every carriage return, alone or before a line feed, as one line
feed. -/
def unifyLineEnds (cs : List Char) : List Char :=
  (mergeReturns cs).map fun c => if c == '\r' then '\n' else c

end LineScript.Text
