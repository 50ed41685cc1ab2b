/-
LineScript/Token/Scan.lean

The tokens of a text.

Spaces and tabs separate tokens and are passed over.  Scanning goes on to the
end of the text or to the first character that starts no token; the result
says which.  Columns count characters from one, and start again behind a line
feed, which can only stand inside a text literal.

The scanner walks over the text character by character.  Where a token starts
it notes the token and how many characters of it are still to come, and passes
over those; so it recurses on the text alone.  The equations `scan_gap`,
`scan_token` and `scan_stuck` say what it does in terms of whole tokens.
-/
import LineScript.Token.Lexeme

namespace LineScript.Token

/-- The result of scanning: the tokens, and the character that stopped the
scan before the end, with its column. -/
structure Scan where
  tokens : List Token
  stuck : Option (Char × Nat)
deriving DecidableEq

/-- Put a token in front of a scan. -/
def Scan.note (t : Token) : Scan → Scan
  | ⟨ts, stuck⟩ => ⟨t :: ts, stuck⟩

/-- A character that separates tokens. -/
def isGap (c : Char) : Bool :=
  c == ' ' || c == '\t'

/-- The column behind a character at a column. -/
def columnAfter (column : Nat) (c : Char) : Nat :=
  if c = '\n' then 1 else column + 1

/-- Scan a text whose first character is at `column`, after passing over the
`skip` characters that belong to a token already noted. -/
def scanFrom : Nat → Nat → List Char → Scan
  | _, _, [] => ⟨[], none⟩
  | skip + 1, column, c :: r => scanFrom skip (columnAfter column c) r
  | 0, column, c :: r =>
    if isGap c then scanFrom 0 (columnAfter column c) r
    else
      match lexeme? (c :: r) with
      | none => ⟨[], some (c, column)⟩
      | some (kind, text) =>
        (scanFrom (text.length - 1) (columnAfter column c) r).note
          ⟨kind, String.ofList text, column⟩

/-- The tokens of a text. -/
def scan (cs : List Char) : Scan :=
  scanFrom 0 1 cs

/-! ### Scanning by whole tokens -/

/-- Passing over characters moves the column over them. -/
theorem scanFrom_skip (taken rest : List Char) (column : Nat) :
    scanFrom taken.length column (taken ++ rest)
      = scanFrom 0 (taken.foldl columnAfter column) rest := by
  induction taken generalizing column with
  | nil => rfl
  | cons c t ih => exact ih (columnAfter column c)

/-- A gap makes no difference but for the column. -/
theorem scan_gap {c : Char} (h : isGap c = true) (column : Nat) (r : List Char) :
    scanFrom 0 column (c :: r) = scanFrom 0 (columnAfter column c) r := by
  rw [scanFrom, if_pos h]

/-- A character that starts no token stops the scan. -/
theorem scan_stuck {c : Char} {r : List Char} (hg : isGap c = false)
    (h : lexeme? (c :: r) = none) (column : Nat) :
    scanFrom 0 column (c :: r) = ⟨[], some (c, column)⟩ := by
  rw [scanFrom, if_neg (by simp [hg]), h]

/-- A token is noted at its column, and the scan goes on behind it. -/
theorem scan_token {c : Char} {t rest : List Char} {kind : Kind} (hg : isGap c = false)
    (h : lexeme? (c :: t ++ rest) = some (kind, c :: t)) (column : Nat) :
    scanFrom 0 column (c :: t ++ rest)
      = (scanFrom 0 ((c :: t).foldl columnAfter column) rest).note
          ⟨kind, String.ofList (c :: t), column⟩ := by
  rw [List.cons_append] at h ⊢
  rw [scanFrom, if_neg (by simp [hg]), h]
  show Scan.note _ (scanFrom t.length _ (t ++ rest)) = _
  rw [scanFrom_skip]
  rfl

end LineScript.Token
