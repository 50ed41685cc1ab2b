/-
LineScript/Text/Blank.lean

Blank characters and the trimming of blank margins.

A statement may stand between any blank characters, a line of nothing but
blanks says nothing, and a comment may be indented.  All three rules use the
same class of characters, `isBlank`: the space, the control characters that
move the print position, the four information separators, and the space
separators of Unicode.  Zero-width characters are not blank.

Texts are lists of characters here, so that the rules below are statements
about `List.dropWhile`.
-/

namespace LineScript.Text

/-! ### The class of blanks -/

/-- Blank characters: tab to carriage return, the information separators,
the space, next line, and the space, line and paragraph separators of
Unicode. -/
def isBlank (c : Char) : Bool :=
  let n := c.toNat
  (0x09 ≤ n && n ≤ 0x0D) || (0x1C ≤ n && n ≤ 0x20) || n == 0x85 || n == 0xA0 ||
    n == 0x1680 || (0x2000 ≤ n && n ≤ 0x200A) || n == 0x2028 || n == 0x2029 ||
    n == 0x202F || n == 0x205F || n == 0x3000

/-! ### Trimming -/

/-- Drop the leading blanks. -/
def trimStart (cs : List Char) : List Char :=
  cs.dropWhile isBlank

/-- Drop the trailing blanks. -/
def trimEnd (cs : List Char) : List Char :=
  (trimStart cs.reverse).reverse

/-- Drop the blanks on both sides. -/
def trim (cs : List Char) : List Char :=
  trimEnd (trimStart cs)

/-- A text that holds blanks only, the empty text included. -/
def allBlank (cs : List Char) : Bool :=
  cs.all isBlank

@[simp] theorem trimStart_nil : trimStart [] = [] := rfl

@[simp] theorem trim_nil : trim [] = [] := rfl

/-- What is left after trimming the front starts with no blank. -/
theorem isBlank_head_trimStart {cs r : List Char} {c : Char}
    (h : trimStart cs = c :: r) : isBlank c = false := by
  induction cs with
  | nil => simp [trimStart] at h
  | cons a as ih =>
    by_cases ha : isBlank a = true
    · exact ih (by simpa [trimStart, ha] using h)
    · simp only [trimStart, List.dropWhile_cons, ha, Bool.false_eq_true, if_false,
        List.cons.injEq] at h
      simpa [h.1] using ha

end LineScript.Text
