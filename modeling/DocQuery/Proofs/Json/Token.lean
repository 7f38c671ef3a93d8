import DocQuery.Json.Token
import DocQuery.Proofs.Json.Number

/-!
# Tokens from their texts

A token is read from its text whatever stands behind it, as long as a word does not go on there
(`Token.scan?_text_append`).  So tokens are read from any text that spells them (`Token.Spells`), that
is, has them in order with any blanks between them (`Token.scan?_of_spells`).
-/

namespace DocQuery.Json

/-! ### Strings -/

namespace Quoted

theorem split?_cons {c : Char} (hquote : c ≠ '"') (hbackslash : c ≠ '\\') (rest : List Char) :
    split? (c :: rest) = (split? rest).map fun (body, behind) => (c :: body, behind) := by
  rw [split?]
  · exact hquote
  · exact fun _ _ h _ => hbackslash h

theorem hexDigit_ne (n : Nat) : hexDigit n ≠ '"' ∧ hexDigit n ≠ '\\' := by
  have hdigit : ∀ k < 16, Nat.digitChar k ≠ '"' ∧ Nat.digitChar k ≠ '\\' := by decide
  exact hdigit (n % 16) (Nat.mod_lt n (by decide))

/-- The three forms of what stands for a character. -/
theorem escape_cases (c : Char) :
    (∃ letter, escape c = ['\\', letter]) ∨
      escape c = ['\\', 'u', '0', '0', hexDigit (c.toNat / 16), hexDigit c.toNat] ∨
      (escape c = [c] ∧ c ≠ '"' ∧ c ≠ '\\') := by
  grind [escape]

/-- What stands for a character is passed over as a whole. -/
theorem split?_escape_append (c : Char) (rest : List Char) :
    split? (escape c ++ rest) =
      (split? rest).map fun (body, behind) => (escape c ++ body, behind) := by
  rcases escape_cases c with ⟨letter, hletter⟩ | hunit | ⟨hplain, hquote, hbackslash⟩
  · rw [hletter]
    rfl
  · have hhigh := hexDigit_ne (c.toNat / 16)
    have hlow := hexDigit_ne c.toNat
    rw [hunit]
    simp only [List.cons_append, List.nil_append]
    rw [split?, split?_cons (by decide) (by decide), split?_cons (by decide) (by decide),
      split?_cons hhigh.1 hhigh.2, split?_cons hlow.1 hlow.2]
    cases split? rest <;> rfl
  · rw [hplain]
    exact split?_cons hquote hbackslash rest

/-- The closing quotation mark is found behind what stands for a text. -/
theorem split?_encode_append (chars rest : List Char) :
    split? (encode chars ++ '"' :: rest) = some (encode chars, rest) := by
  induction chars with
  | nil => rfl
  | cons c chars ih =>
    rw [encode, List.flatMap_cons, ← encode, List.append_assoc, split?_escape_append, ih]
    rfl

end Quoted

namespace Token

/-! ### Words -/

/-- Whether a token is a word. -/
def isWord : Token → Bool
  | null | boolean _ | number _ => true
  | _ => false

theorem text_number (n : Number) : text (number n) = n.numeral.text :=
  rfl

theorem isWordChar_of_isDigit {c : Char} (h : c.isDigit = true) : isWordChar c = true := by
  have hne : ∀ d : Char, d.isDigit = false → c ≠ d := by
    rintro d hd rfl
    rw [h] at hd
    cases hd
  simp [isWordChar, isBlank, ofMark?, hne ' ' rfl, hne '\n' rfl, hne '\r' rfl, hne '\t' rfl,
    hne '[' rfl, hne ']' rfl, hne '\x7b' rfl, hne '\x7d' rfl, hne ',' rfl, hne ':' rfl,
    hne '"' rfl]

theorem isWordChar_of_mem_text {t : Token} (ht : t.isWord = true) {c : Char} (hc : c ∈ t.text) :
    isWordChar c = true := by
  cases t with
  | null =>
    have hword : (text null).all isWordChar = true := by decide
    exact List.all_eq_true.mp hword c hc
  | boolean b =>
    have hword : ∀ b, (text (boolean b)).all isWordChar = true := by decide
    exact List.all_eq_true.mp (hword b) c hc
  | number n =>
    have hword : ['-', '+', '.', 'e'].all isWordChar = true := by decide
    exact (n.wellFormed_numeral.mem_text hc).elim isWordChar_of_isDigit
      (List.all_eq_true.mp hword c)
  | openArray | closeArray | openObject | closeObject | comma | colon | string => cases ht

theorem text_ne_nil {t : Token} (ht : t.isWord = true) : t.text ≠ [] := by
  cases t with
  | null => decide
  | boolean b => cases b <;> decide
  | number n =>
    intro hnil
    rw [text_number, Numeral.text, List.append_eq_nil_iff, List.append_eq_nil_iff,
      List.append_eq_nil_iff] at hnil
    exact n.wellFormed_numeral.whole.ne_nil hnil.1.1.2
  | openArray | closeArray | openObject | closeObject | comma | colon | string => cases ht

theorem ofWord?_text {t : Token} (ht : t.isWord = true) : ofWord? t.text = some t := by
  cases t with
  | null => decide
  | boolean b => cases b <;> decide
  | number n =>
    -- no numeral is one of the three other words
    have hread := Numeral.ofText?_text n.wellFormed_numeral
    have hne : ∀ word, Numeral.ofText? word = none → n.numeral.text ≠ word := by
      rintro _ hnone rfl
      rw [hread] at hnone
      cases hnone
    rw [text_number, ofWord?, if_neg (hne _ rfl), if_neg (hne _ rfl), if_neg (hne _ rfl), hread,
      Option.bind_some, n.ofNumeral?_numeral, Option.map_some]
  | openArray | closeArray | openObject | closeObject | comma | colon | string => cases ht

/-! ### Scanning -/

theorem scan?_nil : scan? [] = some [] := by
  rw [scan?]

theorem scan?_blank {c : Char} (h : isBlank c = true) (rest : List Char) :
    scan? (c :: rest) = scan? rest := by
  rw [scan?, if_pos h]

theorem isBlank_of_ofMark? {c : Char} {t : Token} (h : ofMark? c = some t) :
    isBlank c = false := by
  cases hblank : isBlank c with
  | false => rfl
  | true =>
    have hc : c = ' ' ∨ c = '\n' ∨ c = '\r' ∨ c = '\t' := by
      simpa [isBlank, or_assoc] using hblank
    rcases hc with rfl | rfl | rfl | rfl <;> cases h

theorem scan?_mark {c : Char} {t : Token} (h : ofMark? c = some t) (rest : List Char) :
    scan? (c :: rest) = (scan? rest).map (t :: ·) := by
  have hblank : ¬ isBlank c = true := by simp [isBlank_of_ofMark? h]
  rw [scan?, if_neg hblank, h]

theorem scan?_string (s : String) (rest : List Char) :
    scan? (Quoted.text s ++ rest) = (scan? rest).map (string s :: ·) := by
  have hsplit := Quoted.split?_encode_append s.toList rest
  have hdecode : ofQuoted? (Quoted.encode s.toList) = some (string s) := by
    rw [ofQuoted?, Quoted.decode?_encode, Option.map_some, String.ofList_toList]
  rw [Quoted.text, List.append_assoc, List.cons_append, List.singleton_append, scan?,
    if_neg (by decide)]
  split
  · next hmark => cases hmark
  · rw [if_pos rfl]
    split
    · next hnone =>
      rw [hsplit] at hnone
      cases hnone
    · next body behind hsome =>
      rw [hsplit, Option.some.injEq, Prod.mk.injEq] at hsome
      obtain ⟨rfl, rfl⟩ := hsome
      rw [hdecode]

theorem scan?_word {word rest : List Char} {t : Token} (hne : word ≠ [])
    (hword : ∀ c ∈ word, isWordChar c = true) (hrest : Stops isWordChar rest)
    (ht : ofWord? word = some t) : scan? (word ++ rest) = (scan? rest).map (t :: ·) := by
  obtain ⟨c, others, rfl⟩ := List.exists_cons_of_ne_nil hne
  have hothers : ∀ d ∈ others, isWordChar d = true := fun d hd =>
    hword d (List.mem_cons_of_mem c hd)
  have hc : isBlank c = false ∧ ofMark? c = none ∧ c ≠ '"' := by
    simpa [isWordChar, and_assoc] using hword c List.mem_cons_self
  -- the longest run of such characters ends where the word does
  rw [List.cons_append, scan?]
  simp only [hc.1, hc.2.1, hc.2.2, Bool.false_eq_true, if_false,
    takeWhile_append_of_stops hothers hrest, dropWhile_append_of_stops hothers hrest, ht]

/-- A token is read from its text, if a word does not go on behind it. -/
theorem scan?_text_append (t : Token) {rest : List Char}
    (h : t.isWord = true → Stops isWordChar rest) :
    scan? (t.text ++ rest) = (scan? rest).map (t :: ·) := by
  cases t with
  | string s => exact scan?_string s rest
  | openArray | closeArray | openObject | closeObject | comma | colon => exact scan?_mark rfl rest
  | null | boolean | number =>
    exact scan?_word (text_ne_nil rfl) (fun _ => isWordChar_of_mem_text rfl) (h rfl) (ofWord?_text rfl)

/-! ### Spelling -/

/-- A text has some tokens in order and nothing else than blanks between them. -/
inductive Spells : List Char → List Token → Prop where
  | nil : Spells [] []
  | blank {c : Char} {chars : List Char} {tokens : List Token} (isBlank : isBlank c = true)
    (rest : Spells chars tokens) : Spells (c :: chars) tokens
  /-- A word has to end where its text ends. -/
  | token {t : Token} {chars : List Char} {tokens : List Token}
    (stops : t.isWord = true → Stops isWordChar chars) (rest : Spells chars tokens) :
    Spells (t.text ++ chars) (t :: tokens)

theorem not_isWordChar_of_isBlank {c : Char} (h : isBlank c = true) : isWordChar c = false := by
  rw [isWordChar, h]
  rfl

/-- A token that is no word starts with a character that no word has. -/
theorem stops_text_append {t : Token} (h : t.isWord = false) (rest : List Char) :
    Stops isWordChar (t.text ++ rest) := by
  intro c hc
  cases t with
  | openArray | closeArray | openObject | closeObject | comma | colon | string =>
    obtain rfl := Option.some.inj hc
    rfl
  | null | boolean | number => cases h

/-- A word ends in front of a text whose first token is no word. -/
theorem Spells.stops {chars : List Char} {tokens : List Token} (h : Spells chars tokens)
    (hfirst : ∀ t ∈ tokens.head?, t.isWord = false) : Stops isWordChar chars := by
  cases h with
  | nil =>
    intro c hc
    cases hc
  | blank hblank =>
    intro c hc
    obtain rfl := Option.some.inj hc
    exact not_isWordChar_of_isBlank hblank
  | @token t chars tokens => exact stops_text_append (hfirst t rfl) chars

theorem Spells.append_blanks {blanks chars : List Char} {tokens : List Token}
    (hblanks : ∀ c ∈ blanks, isBlank c = true) (h : Spells chars tokens) :
    Spells (blanks ++ chars) tokens := by
  induction blanks with
  | nil => exact h
  | cons c blanks ih =>
    obtain ⟨hc, hblanks⟩ := List.forall_mem_cons.mp hblanks
    exact .blank hc (ih hblanks)

/-- A token may stand in front of a text, with or without a gap, if no word follows on a word. -/
theorem Spells.cons {t : Token} {gap chars : List Char} {tokens : List Token}
    (hgap : ∀ c ∈ gap, isBlank c = true)
    (happart : ∀ next ∈ tokens.head?, t.isWord = true → next.isWord = false)
    (h : Spells chars tokens) : Spells (t.text ++ gap ++ chars) (t :: tokens) := by
  have hrest := h.append_blanks hgap
  rw [List.append_assoc]
  exact .token (fun ht => hrest.stops fun next hnext => happart next hnext ht) hrest

/-- The tokens that a text spells are found in it. -/
theorem scan?_of_spells {chars : List Char} {tokens : List Token} (h : Spells chars tokens) :
    scan? chars = some tokens := by
  induction h with
  | nil => exact scan?_nil
  | blank hblank _ ih => rw [scan?_blank hblank, ih]
  | token hstops _ ih => rw [scan?_text_append _ hstops, ih, Option.map_some]

end Token

end DocQuery.Json
