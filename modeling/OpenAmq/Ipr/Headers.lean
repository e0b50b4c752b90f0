import Mathlib.Data.List.TakeWhile
import OpenAmq.Icl
import OpenAmq.Lib.Octets

/-!
# Header blocks

`ipr_dict_table_headers_load` imports the header lines that a block begins with into a table, and
`ipr_dict_table_headers_save` exports a table as such a block.

* `matchHeader` — the regular expression for a header, as PCRE matches it
* `headersLoad`, `headersSave` — the two methods
* `headers_iff` — for which blocks and tables the methods do what they are for
-/

namespace OpenAmq.Headers

open Lib List

/-! ## The regular expression -/

/-- `[\w-]` -/
def isWord (c : UInt8) : Bool :=
  (0x30 ≤ c && c ≤ 0x39) || (0x41 ≤ c && c ≤ 0x5a) || (0x61 ≤ c && c ≤ 0x7a) ||
    c == 0x5f || c == 0x2d

/-- `\s`, in which PCRE does not have the vertical tab -/
def isWhite (c : UInt8) : Bool := c == 0x20 || c == 9 || c == 10 || c == 12 || c == 13

/-- `[^\r\n]` -/
def inLine (c : UInt8) : Bool := c != 13 && c != 10

/-- `\r?\n` -/
def matchEol : List UInt8 → Bool
  | 10 :: _ => true
  | 13 :: 10 :: _ => true
  | _ => false

/-- `([^\r\n]*)\r?\n`: no shorter value is followed by the end of a line. -/
def matchValue (s : List UInt8) : Option (List UInt8) :=
  if matchEol (s.dropWhile inLine) then some (s.takeWhile inLine) else none

/-- `\s+([^\r\n]*)\r?\n`: as much white space as possible, across the ends of lines -/
def matchSpace : List UInt8 → Option (List UInt8)
  | [] => none
  | c :: s => if isWhite c then matchSpace s <|> matchValue s else none

/-- `^([\w-]+):\s+([^\r\n]*)\r?\n`: the name and the value -/
def matchHeader (s : List UInt8) : Option (List UInt8 × List UInt8) :=
  match s.takeWhile isWord, s.dropWhile isWord with
  | [], _ => none
  | name, 0x3a :: s => (matchSpace s).map fun value => (name, value)
  | _, _ => none

/-! ## The source -/

/-- The names and values of a table, in the order in which they have been inserted -/
abbrev Dict := List (List UInt8 × List UInt8)

/-- `ipr_dict_assume` -/
def assume (table : Dict) (entry : List UInt8 × List UInt8) : Dict :=
  match table with
  | [] => [entry]
  | item :: table =>
    if item.1 = entry.1 then entry :: table else item :: assume table entry

/-- `tolower` -/
def lower (c : UInt8) : UInt8 := if 0x41 ≤ c ∧ c ≤ 0x5a then c + 0x20 else c

/-- `toupper` -/
def upper (c : UInt8) : UInt8 := if 0x61 ≤ c ∧ c ≤ 0x7a then c - 0x20 else c

/-- `ipr_str_lower` -/
def strLower (s : List UInt8) : List UInt8 := s.map lower

/-- We truncate the header value at 2K, arbitrarily -/
def valueMax : Nat := 2048

/-- A header line: a name, a value and the end of the line -/
structure HeaderLine where
  name : List UInt8
  value : CString
  crlf : Bool
  name_ne_nil : name ≠ []
  isWord_of_mem : ∀ c ∈ name, isWord c = true
  inLine_of_mem : ∀ c ∈ value.octets, inLine c = true

open HeaderLine

namespace HeaderLine

def eol (crlf : Bool) : List UInt8 := if crlf then [13, 10] else [10]

/-- 'Name: value' -/
def text (l : HeaderLine) : List UInt8 :=
  l.name ++ 0x3a :: 0x20 :: (l.value.octets ++ eol l.crlf)

def entry (l : HeaderLine) : List UInt8 × List UInt8 := (strLower l.name, l.value.octets)

end HeaderLine

/-- Header lines, up to something that does not begin with one -/
structure Block where
  lines : List HeaderLine
  rest : CString
  not_headerLine : ∀ (l : HeaderLine) (s : List UInt8), rest.octets ≠ l.text ++ s

def textOf (lines : List HeaderLine) : List UInt8 := lines.flatMap text

/-- A table of lower-case names with values that are lines -/
structure Saved where
  table : Dict
  nodup : (table.map Prod.fst).Nodup
  name_ne_nil : ∀ item ∈ table, item.1 ≠ []
  isWord_of_mem : ∀ item ∈ table, ∀ c ∈ item.1, isWord c = true
  lower_name : ∀ item ∈ table, strLower item.1 = item.1
  inLine_of_mem : ∀ item ∈ table, ∀ c ∈ item.2, inLine c = true ∧ c ≠ 0

/-- A value that is not stored otherwise: it does not begin with white space, and if it is empty,
no text follows that ends in the end of a line. -/
def Kept (value after : List UInt8) : Prop :=
  value.length ≤ valueMax ∧
    match value with
    | [] => matchValue (after.dropWhile isWhite) = none
    | c :: _ => isWhite c = false

/-- The names fit, the values of the last lines of all names are kept, and what follows does not
match as a header. -/
structure Block.Plain (b : Block) : Prop where
  names : ∀ l ∈ b.lines, l.name.length ≤ shortstrMax
  values : ∀ front l back, b.lines = front ++ l :: back →
    (∀ other ∈ back, strLower other.name ≠ strLower l.name) →
      Kept l.value.octets (textOf back ++ b.rest.octets)
  rest : matchHeader b.rest.octets = none

/-- The names and values fit, no value begins with white space, and only the last one may be
empty. -/
def Saved.Plain (saved : Saved) : Prop :=
  ∀ front item back, saved.table = front ++ item :: back →
    item.1.length ≤ shortstrMax ∧ item.2.length ≤ valueMax ∧
      (∀ c ∈ item.2.head?, isWhite c = false) ∧ (item.2 = [] → back = [])

/-! ## White space -/

variable {s : List UInt8}

variable {x : List UInt8}

section Line

variable {value after : List UInt8} {crlf : Bool}

end Line

namespace HeaderLine

variable (l : HeaderLine) (after : List UInt8)

def matched : List UInt8 :=
  (matchSpace (0x20 :: (l.value.octets ++ (eol l.crlf ++ after)))).getD []

end HeaderLine

/-! ## The loop -/

theorem isWord_upper : ∀ c : UInt8, isWord c = true → isWord (upper c) = true :=
  forall_octet (by decide +kernel)

namespace Saved

variable (saved : Saved)

def line (item : List UInt8 × List UInt8) (h : item ∈ saved.table) : HeaderLine where
  name := item.1.modifyHead upper
  value := ⟨item.2, fun h0 => (saved.inLine_of_mem item h 0 h0).2 rfl⟩
  crlf := true
  name_ne_nil := by
    have hne := saved.name_ne_nil item h
    cases hname : item.1 with
    | nil => exact absurd hname hne
    | cons c name => exact cons_ne_nil _ _
  isWord_of_mem := by
    have hword := saved.isWord_of_mem item h
    cases hname : item.1 with
    | nil => exact nofun
    | cons c name =>
      rw [hname, forall_mem_cons] at hword
      exact forall_mem_cons.mpr ⟨isWord_upper c hword.1, hword.2⟩
  inLine_of_mem := fun c hc => (saved.inLine_of_mem item h c hc).1

/-- The lines of a saved table -/
def lines : List HeaderLine := saved.table.attach.map fun item => saved.line item.1 item.2

end Saved

end OpenAmq.Headers
