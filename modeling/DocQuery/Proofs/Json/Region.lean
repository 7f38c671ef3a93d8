import DocQuery.Proofs.Json.Text

/-!
# Spaces inside and outside strings

A space or a line end in a JSON text belongs to a string or stands in a gap between two tokens.
Which of the two depends on everything in front of it: on the quotation marks, except those that a
backslash escapes.  A text is therefore read from its beginning, and each character is marked with
the region in which it stands (`Json.mark`).  `Json.squeeze` leaves out the gaps, and nothing of
what is in strings.

The texts of a tree in the two layouts differ in gaps only (`Json.squeeze_indented`).  The text of a
token has no gap, even if it is a string with spaces in it (`Json.Held.solid`), and behind it the
region is the one it started in (`Json.solid_text`); so each token can be marked by itself, whatever
the layout has put in front.
-/

namespace DocQuery.Json

/-- Where in a text a character stands. -/
inductive Region where
  /-- Outside all strings; opening quotation marks count as outside. -/
  | outside
  /-- In a string, whose closing quotation mark counts as inside. -/
  | inside
  /-- In a string, behind a backslash that escapes this character. -/
  | escaped
deriving DecidableEq

/-- The region behind a character that stands in this one. -/
def Region.next : Region → Char → Region
  | outside, c => if c = '"' then inside else outside
  | inside, c => if c = '"' then outside else if c = '\\' then escaped else inside
  | escaped, _ => inside

/-- The characters of a text that starts in some region, each with the region in which it stands. -/
def mark (region : Region) : List Char → List (Char × Region)
  | [] => []
  | c :: rest => (c, region) :: mark (region.next c) rest

/-- Whether a marked character is a space or a line end outside all strings. -/
def isGap (marked : Char × Region) : Bool :=
  marked.2 = .outside && (marked.1 = ' ' || marked.1 = '\n')

/-- The characters of a text that are in no gap, with their regions. -/
def solidPart (text : List Char) : List (Char × Region) :=
  (mark .outside text).filter (!isGap ·)

/-- A text without its gaps. -/
def squeeze (text : List Char) : List Char :=
  (solidPart text).map Prod.fst

/-- What a text has in its strings, with the closing quotation mark of each. -/
def quotedPart (text : List Char) : List Char :=
  ((mark .outside text).filter (·.2 ≠ .outside)).map Prod.fst

/-! ### Marked texts -/

theorem mark_append (region : Region) (text rest : List Char) :
    mark region (text ++ rest) = mark region text ++ mark (text.foldl Region.next region) rest := by
  induction text generalizing region with
  | nil => rfl
  | cons c text ih => simp [mark, ih]

theorem map_fst_mark (region : Region) (text : List Char) :
    (mark region text).map Prod.fst = text := by
  induction text generalizing region with
  | nil => rfl
  | cons c text ih => simp [mark, ih]

/-- Leaving out the gaps leaves all that is in strings. -/
theorem quotedPart_eq (text : List Char) :
    quotedPart text = ((solidPart text).filter (·.2 ≠ .outside)).map Prod.fst := by
  rw [quotedPart, solidPart, List.filter_filter]
  congr 1
  apply List.filter_congr
  intro marked _
  by_cases h : marked.2 = .outside <;> simp [isGap, h]

/-! ### Solid texts -/

/-- A text without gaps that leads from outside all strings to outside all strings. -/
structure Solid (text : List Char) : Prop where
  closed : text.foldl Region.next .outside = .outside
  not_isGap : ∀ marked ∈ mark .outside text, isGap marked = false

/-- A solid text in front of another is marked by itself. -/
theorem Solid.mark_append {text : List Char} (h : Solid text) (rest : List Char) :
    mark .outside (text ++ rest) = mark .outside text ++ mark .outside rest := by
  rw [Json.mark_append, h.closed]

theorem Solid.solidPart_append {text : List Char} (h : Solid text) (rest : List Char) :
    solidPart (text ++ rest) = mark .outside text ++ solidPart rest := by
  have hall : (mark .outside text).filter (!isGap ·) = mark .outside text :=
    List.filter_eq_self.mpr fun marked hmarked => by rw [h.not_isGap marked hmarked]; rfl
  rw [solidPart, h.mark_append, List.filter_append, hall]
  rfl

theorem solid_of_forall_ne {text : List Char} (h : ∀ c ∈ text, c ≠ '"' ∧ c ≠ ' ' ∧ c ≠ '\n') :
    Solid text := by
  induction text with
  | nil => exact ⟨rfl, nofun⟩
  | cons c text ih =>
    obtain ⟨⟨hquote, hspace, hline⟩, htext⟩ := List.forall_mem_cons.mp h
    have hnext : Region.next .outside c = .outside := if_neg hquote
    constructor
    · rw [List.foldl_cons, hnext, (ih htext).closed]
    · rw [mark, hnext]
      intro marked hmarked
      rcases List.mem_cons.mp hmarked with rfl | hmarked
      · simp [isGap, hspace, hline]
      · exact (ih htext).not_isGap marked hmarked

/-! ### Strings -/

/-- A text that stays in the string in which it starts. -/
structure Held (text : List Char) : Prop where
  stays : text.foldl Region.next .inside = .inside
  ne_outside : ∀ marked ∈ mark .inside text, marked.2 ≠ .outside

theorem Held.append {text rest : List Char} (h : Held text) (hrest : Held rest) :
    Held (text ++ rest) := by
  constructor
  · rw [List.foldl_append, h.stays, hrest.stays]
  · rw [mark_append, h.stays]
    intro marked hmarked
    rcases List.mem_append.mp hmarked with hmarked | hmarked
    · exact h.ne_outside marked hmarked
    · exact hrest.ne_outside marked hmarked

theorem held_escape (c : Char) : Held (Quoted.escape c) := by
  rcases Quoted.escape_cases c with ⟨letter, hletter⟩ | hunit | ⟨hplain, hquote, hbackslash⟩
  · -- the letter behind a backslash ends nothing, whichever it is
    rw [hletter]
    exact ⟨rfl, by simp [mark, Region.next]⟩
  · have hhigh := Quoted.hexDigit_ne (c.toNat / 16)
    have hlow := Quoted.hexDigit_ne c.toNat
    rw [hunit]
    constructor <;> simp [mark, Region.next, hhigh, hlow]
  · rw [hplain]
    constructor <;> simp [mark, Region.next, hquote, hbackslash]

theorem held_encode (chars : List Char) : Held (Quoted.encode chars) := by
  induction chars with
  | nil => exact ⟨rfl, nofun⟩
  | cons c chars ih => exact (held_escape c).append ih

/-- A text that stays in a string is solid between quotation marks, with whatever spaces it has. -/
theorem Held.solid {text : List Char} (h : Held text) : Solid ('"' :: text ++ ['"']) := by
  have hopen : Region.next .outside '"' = .inside := rfl
  constructor
  · rw [List.cons_append, List.foldl_cons, hopen, List.foldl_append, h.stays]
    rfl
  · rw [List.cons_append, mark, hopen, mark_append, h.stays]
    intro marked hmarked
    simp only [List.mem_cons, List.mem_append, mark, List.not_mem_nil, or_false] at hmarked
    rcases hmarked with rfl | hmarked | rfl
    · rfl
    · simp [isGap, h.ne_outside marked hmarked]
    · rfl

/-! ### Layouts -/

theorem ne_of_isWordChar {c : Char} (h : Token.isWordChar c = true) :
    c ≠ '"' ∧ c ≠ ' ' ∧ c ≠ '\n' := by
  refine ⟨?_, ?_, ?_⟩ <;> rintro rfl <;> exact absurd h (by decide)

/-- The text of a token is solid. -/
theorem solid_text (t : Token) : Solid t.text := by
  cases t with
  | openArray | closeArray | openObject | closeObject | comma | colon =>
    exact solid_of_forall_ne (List.forall_mem_singleton.mpr (by decide))
  | string s => exact (held_encode s.toList).solid
  | null | boolean | number =>
    exact solid_of_forall_ne fun _ hc => ne_of_isWordChar (Token.isWordChar_of_mem_text rfl hc)

/-- Spaces and line ends between tokens are no part of the solid text. -/
theorem solidPart_gap_append {gap : List Char} (hgap : ∀ c ∈ gap, c = ' ' ∨ c = '\n')
    (rest : List Char) : solidPart (gap ++ rest) = solidPart rest := by
  induction gap with
  | nil => rfl
  | cons c gap ih =>
    obtain ⟨hc, hgap⟩ := List.forall_mem_cons.mp hgap
    rw [← ih hgap]
    rcases hc with rfl | rfl <;> rfl

/-- A layout leaves the marked texts of the tokens as they are. -/
theorem solidPart_spaced (depth : Nat) (tokens : List Token) :
    solidPart (Layout.spaced depth tokens) = mark .outside (tokens.flatMap Token.text) := by
  induction tokens generalizing depth with
  | nil => rfl
  | cons t tokens ih =>
    rw [List.flatMap_cons, (solid_text t).mark_append]
    cases tokens with
    | nil =>
      have halone := (solid_text t).solidPart_append []
      rwa [List.append_nil] at halone
    | cons next rest =>
      -- behind the token the text is outside all strings again, and so is the whole gap
      rw [Layout.spaced, List.append_assoc, (solid_text t).solidPart_append,
        solidPart_gap_append fun _ => eq_space_or_newLine_of_mem_gap, ih]

/-- The texts of a tree in the two layouts have the same characters in the same regions, but for the
gaps of the one. -/
theorem solidPart_indented (j : Json) :
    solidPart j.indented.toList = mark .outside j.compact.toList := by
  rw [indented, compact, String.toList_ofList, String.toList_ofList, solidPart_spaced]

theorem squeeze_indented (j : Json) : squeeze j.indented.toList = j.compact.toList := by
  rw [squeeze, solidPart_indented, map_fst_mark]

/-- A space in a string stays, also behind a quotation mark that is escaped. -/
example : squeeze (array [.string "a\" b", .null]).indented.toList =
    "[\"a\\\" b\",null]".toList := by
  decide

theorem quotedPart_indented (j : Json) :
    quotedPart j.indented.toList = quotedPart j.compact.toList := by
  rw [quotedPart_eq, solidPart_indented]
  rfl

end DocQuery.Json
