/-!
# Quoted text

A string in JSON text stands between quotation marks.  Between them a quotation mark, a backslash
and the characters below `U+0020` are escaped, and every other character stands for itself
(`Quoted.encode`).  Reading takes any escape: a backslash before `/` too, and four hexadecimal
digits for a code unit of UTF-16, of which a surrogate has to come in a pair (`Quoted.decode?`).
What was written is read back (`decode?_encode`).  `Quoted.split?` finds the closing quotation mark,
the first one that no backslash escapes.
-/

namespace DocQuery.Json.Quoted

/-! ### Writing -/

/-- The last hexadecimal digit of a number, in lower case. -/
def hexDigit (n : Nat) : Char :=
  Nat.digitChar (n % 16)

/-- What stands for a character between quotation marks. -/
def escape (c : Char) : List Char :=
  if c = '"' then ['\\', '"']
  else if c = '\\' then ['\\', '\\']
  else if c = '\x08' then ['\\', 'b']
  else if c = '\x0c' then ['\\', 'f']
  else if c = '\n' then ['\\', 'n']
  else if c = '\r' then ['\\', 'r']
  else if c = '\t' then ['\\', 't']
  else if c.toNat < 0x20 then
    ['\\', 'u', '0', '0', hexDigit (c.toNat / 16), hexDigit c.toNat]
  else [c]

/-- What stands for a text between quotation marks. -/
def encode (chars : List Char) : List Char :=
  chars.flatMap escape

def text (s : String) : List Char :=
  '"' :: encode s.toList ++ ['"']

/-! ### Reading -/

/-- Splits a text at the first quotation mark that no backslash escapes, which is left out. -/
def split? : List Char → Option (List Char × List Char)
  | [] => none
  | '"' :: rest => some ([], rest)
  | '\\' :: c :: rest => (split? rest).map fun (body, rest) => ('\\' :: c :: body, rest)
  | c :: rest => (split? rest).map fun (body, rest) => (c :: body, rest)

/-- The number that a hexadecimal digit stands for, in upper or lower case. -/
def hexValue? (c : Char) : Option Nat :=
  if c.isDigit then some (c.toNat - '0'.toNat)
  else if 'a' ≤ c ∧ c ≤ 'f' then some (c.toNat - 'a'.toNat + 10)
  else if 'A' ≤ c ∧ c ≤ 'F' then some (c.toNat - 'A'.toNat + 10)
  else none

/-- The code unit that four hexadecimal digits stand for. -/
def unit? (a b c d : Char) : Option Nat := do
  return 4096 * (← hexValue? a) + 256 * (← hexValue? b) + 16 * (← hexValue? c) + (← hexValue? d)

def isLeading (unit : Nat) : Bool :=
  0xD800 ≤ unit && unit < 0xDC00

def isTrailing (unit : Nat) : Bool :=
  0xDC00 ≤ unit && unit < 0xE000

/-- The character that a surrogate pair stands for. -/
def paired (leading trailing : Nat) : Char :=
  Char.ofNat (0x10000 + (leading - 0xD800) * 0x400 + (trailing - 0xDC00))

/-- The character that a backslash makes of the letter behind it. -/
def unescape? (c : Char) : Option Char :=
  match c with
  | '"' | '\\' | '/' => some c
  | 'b' => some '\x08'
  | 'f' => some '\x0c'
  | 'n' => some '\n'
  | 'r' => some '\r'
  | 't' => some '\t'
  | _ => none

/-- The text that stands between quotation marks. -/
def decode? : List Char → Option (List Char)
  | [] => some []
  | '\\' :: 'u' :: a :: b :: c :: d :: rest =>
    match unit? a b c d with
    | none => none
    | some unit =>
      if isLeading unit then
        match rest with
        | '\\' :: 'u' :: e :: f :: g :: h :: rest =>
          match unit? e f g h with
          | none => none
          | some next =>
            if isTrailing next then (decode? rest).map (paired unit next :: ·) else none
        | _ => none
      else if isTrailing unit then none
      else (decode? rest).map (Char.ofNat unit :: ·)
  | '\\' :: c :: rest =>
    match unescape? c with
    | none => none
    | some plain => (decode? rest).map (plain :: ·)
  | c :: rest => if c = '\\' ∨ c.toNat < 0x20 then none else (decode? rest).map (c :: ·)

/-! ### Reading what was written -/

theorem unit?_hexDigit {n : Nat} (h : n < 0x20) :
    unit? '0' '0' (hexDigit (n / 16)) (hexDigit n) = some n := by
  revert n
  decide

theorem decode?_escape_append (c : Char) (rest : List Char) :
    decode? (escape c ++ rest) = (decode? rest).map (c :: ·) := by
  unfold escape
  repeat' split
  any_goals (rename_i h; subst h; simp [decode?, unescape?])
  · next h =>
    simp only [List.cons_append, List.nil_append]
    rw [decode?, unit?_hexDigit h]
    have hleading : isLeading c.toNat = false := by simp [isLeading]; omega
    have htrailing : isTrailing c.toNat = false := by simp [isTrailing]; omega
    simp [hleading, htrailing]
  · next _ hbackslash _ _ _ _ _ hcontrol =>
    simp only [List.cons_append, List.nil_append]
    rw [decode?]
    · simp [hbackslash, hcontrol]
    · simp_all
    · simp_all

/-- A text is read from what stands for it. -/
theorem decode?_encode (chars : List Char) : decode? (encode chars) = some chars := by
  induction chars with
  | nil => rfl
  | cons c rest ih =>
    rw [encode, List.flatMap_cons, decode?_escape_append, ← encode, ih, Option.map_some]

end DocQuery.Json.Quoted
