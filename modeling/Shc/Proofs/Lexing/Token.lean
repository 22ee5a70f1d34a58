import Mathlib.Data.List.TakeWhile
import Shc.Proofs.Grammar
import Shc.Proofs.Lexing.Line

/-!
# Reading printed tokens

How the lexer reads the text that is printed for a token: symbols, reserved words,
names, numbers and strings.
-/

namespace Shc

open Token (Kind)

namespace Lexeme

/-! ### Symbols -/

/-- A symbol of one character that starts no longer one. -/
theorem read_single {c : Char} {s : Symbol} (hsingle : single? c = some s)
    (hdouble : ∀ d, double? c d = none) (rest : List Char) :
    read c rest = (.symbol s, 1) := by
  have hsymbol : symbol? c rest = some (s, 1) := by
    cases rest <;> simp [symbol?, hsingle, hdouble]
  rw [read, hsymbol]

end Lexeme

/-- A symbol of one character that starts neither a longer one nor a comment. -/
theorem spells_single {text : String} {c : Char} {s : Symbol} (htext : text.toList = [c])
    (hc : c ≠ '/') (hblank : Text.isBlank c = false) (hsingle : Lexeme.single? c = some s)
    (hdouble : ∀ d, Lexeme.double? c d = none) (hline : InLine c) :
    Spells Anything text [.symbol s] :=
  spells_token htext (fun rest _ => startsToken_of_ne hc hblank rest)
    (fun rest _ => Lexeme.read_single hsingle hdouble rest) rfl (by simpa using hline)

theorem spells_lparen : Spells Anything "(" [.symbol .lparen] :=
  spells_single rfl (by decide) (by decide) rfl (fun _ => rfl) (by decide)

theorem spells_rparen : Spells Anything ")" [.symbol .rparen] :=
  spells_single rfl (by decide) (by decide) rfl (fun _ => rfl) (by decide)

theorem spells_lbrace : Spells Anything "\x7b" [.symbol .lbrace] :=
  spells_single rfl (by decide) (by decide) rfl (fun _ => rfl) (by decide)

theorem spells_rbrace : Spells Anything "\x7d" [.symbol .rbrace] :=
  spells_single rfl (by decide) (by decide) rfl (fun _ => rfl) (by decide)

theorem spells_comma : Spells Anything "," [.symbol .comma] :=
  spells_single rfl (by decide) (by decide) rfl (fun _ => rfl) (by decide)

theorem spells_colon : Spells Anything ":" [.symbol .colon] :=
  spells_single rfl (by decide) (by decide) rfl (fun _ => rfl) (by decide)

theorem spells_semicolon : Spells Anything ";" [.symbol .semicolon] :=
  spells_single rfl (by decide) (by decide) rfl (fun _ => rfl) (by decide)

theorem spells_sign (sign : Sign) : Spells Anything sign.text [.symbol sign.symbol] := by
  cases sign with
  | plus => exact spells_single rfl (by decide) (by decide) rfl (fun _ => rfl) (by decide)
  | minus => exact spells_single rfl (by decide) (by decide) rfl (fun _ => rfl) (by decide)

theorem Text.row_succ (c : Char) (n : Nat) :
    Text.row c (n + 1) = String.singleton c ++ Text.row c n := by
  apply String.toList_injective
  simp [Text.row, List.replicate_succ]

theorem spells_carets (n : Nat) :
    Spells Anything (Text.row '^' n) (List.replicate n (.symbol .caret)) := by
  induction n with
  | zero => exact Adds.nil
  | succ n ih =>
    have hcaret : Spells Anything "^" [.symbol .caret] :=
      spells_single rfl (by decide) (by decide) rfl (fun _ => rfl) (by decide)
    rw [Text.row_succ]
    exact hcaret.append_any ih

def SpaceNext (rest : List Char) : Prop :=
  rest.head? = some ' '

theorem spells_operator (op : Operator) : Spells SpaceNext op.text [.symbol op.symbol] := by
  intro rest kinds' hrest hreads
  cases rest with
  | nil => simp [SpaceNext] at hrest
  | cons c rest =>
    obtain rfl : c = ' ' := by simpa [SpaceNext] using hrest
    cases op with
    | div =>
      -- no comment starts here, since a space follows
      exact .token (fun _ _ => rfl) rfl rfl (inLine_of_all (by decide)) hreads
    | or | and | eq | ne | lt | le | gt | ge | add | sub | mul | mod =>
      exact .token (startsToken_of_ne (by decide) (by decide) _) rfl rfl
        (inLine_of_all (by decide)) hreads

theorem spells_eq : Spells SpaceNext "=" [.symbol .eq] := by
  intro rest kinds' hrest hreads
  cases rest with
  | nil => simp [SpaceNext] at hrest
  | cons c rest =>
    obtain rfl : c = ' ' := by simpa [SpaceNext] using hrest
    exact .token (startsToken_of_ne (by decide) (by decide) _) rfl rfl
      (inLine_of_all (by decide)) hreads

/-! ### Words -/

namespace Lexeme

/-- A character that starts a name starts nothing else. -/
theorem plain_of_nameStart {c : Char} (h : isNameStart c = true) :
    single? c = none ∧ (∀ d, double? c d = none) ∧ c ≠ '\x22' ∧ c ≠ '\x27' ∧ c ≠ '/' ∧
      c.isDigit = false := by
  refine ⟨?_, ?_, ?_, ?_, ?_, ?_⟩
  · unfold single?
    split <;> first | rfl | exact absurd h (by decide)
  · intro d
    unfold double?
    split <;> first | rfl | exact absurd h (by decide)
  · rintro rfl
    exact absurd h (by decide)
  · rintro rfl
    exact absurd h (by decide)
  · rintro rfl
    exact absurd h (by decide)
  · -- the digits are below the first range of letters
    by_contra hdigit
    have hlt : c.toNat < 0x41 := by
      have hle : c.toNat ≤ 57 := (Char.isDigit_iff_toNat.1 (by simpa using hdigit)).2
      omega
    have hne : c ≠ '_' := by
      rintro rfl
      exact absurd hlt (by decide)
    have hletter : Text.isLetter c = false := by
      rw [Text.isLetter, Text.letterRanges, Text.Ranges.contains, if_pos hlt]
    simp [isNameStart, hne, hletter] at h

theorem read_word {c : Char} {cs rest : List Char} (hc : isNameStart c = true)
    (hcs : ∀ d ∈ cs, isNamePart d = true) (hrest : Stops rest) :
    read c (cs ++ rest) = (wordKind (String.ofList (c :: cs)), cs.length + 1) := by
  obtain ⟨hsingle, hdouble, hquote, hmark, -, hdigit⟩ := plain_of_nameStart hc
  have hsymbol : symbol? c (cs ++ rest) = none := by
    cases cs ++ rest <;> simp [symbol?, hsingle, hdouble]
  rw [read, hsymbol]
  simp only [hquote, hmark, hdigit, hc, if_false, if_true, Bool.false_eq_true, word,
    takeWhile_append_headIn hcs hrest, List.length_cons]

/-- A row of characters that the lexer takes for one word. -/
def IsWord (cs : List Char) : Prop :=
  ∃ c tail, cs = c :: tail ∧ isNameStart c = true ∧ Text.isBlank c = false ∧
    ∀ d ∈ tail, isNamePart d = true

theorem isNamePart_of_nameStart {c : Char} (h : isNameStart c = true) : isNamePart c = true := by
  rw [isNameStart] at h
  rw [isNamePart, h, Bool.true_or]

theorem inLine_of_namePart {c : Char} (h : isNamePart c = true) : InLine c := by
  constructor
  · rintro rfl
    exact absurd h (by decide)
  · rintro rfl
    exact absurd h (by decide)

theorem isTerminal_wordKind (text : String) : (wordKind text).isTerminal = false := by
  unfold wordKind
  split
  · rfl
  · split
    · rfl
    · split <;> rfl

structure IsName (name : String) : Prop where
  isWord : IsWord name.toList
  kind_eq : wordKind name = .ident name

theorem isWord_keyword (word : Keyword) : IsWord word.text.toList := by
  cases word <;>
    exact ⟨_, _, rfl, by decide, by decide, List.all_eq_true.1 (by decide)⟩

theorem wordKind_keyword (word : Keyword) : wordKind word.text = .keyword word := by
  cases word <;> decide

end Lexeme

theorem spells_word {text : String} (h : Lexeme.IsWord text.toList) :
    Spells Stops text [Lexeme.wordKind text] := by
  obtain ⟨c, tail, htext, hc, hblank, htail⟩ := h
  have hne := (Lexeme.plain_of_nameStart hc).2.2.2.2.1
  refine spells_token htext (fun rest _ => startsToken_of_ne hne hblank _) ?_
    (Lexeme.isTerminal_wordKind text) ?_
  · intro rest hrest
    rw [Lexeme.read_word hc htail hrest, ← htext, String.ofList_toList]
  · intro d hd
    rcases List.mem_cons.1 hd with rfl | hmem
    · exact Lexeme.inLine_of_namePart (Lexeme.isNamePart_of_nameStart hc)
    · exact Lexeme.inLine_of_namePart (htail d hmem)

theorem spells_keyword (word : Keyword) : Spells Stops word.text [.keyword word] := by
  have hword := spells_word (Lexeme.isWord_keyword word)
  rwa [Lexeme.wordKind_keyword] at hword

theorem spells_name {name : String} (h : Lexeme.IsName name) : Spells Stops name [.ident name] := by
  have hword := spells_word h.isWord
  rwa [h.kind_eq] at hword

/-! ### Numbers -/

namespace Text

theorem isDigit_digitChar {n : Nat} (h : n < 10) : (Nat.digitChar n).isDigit = true := by
  have hall : ∀ n, n < 10 → (Nat.digitChar n).isDigit = true := by decide
  exact hall n h

theorem toNat_digitChar {n : Nat} (h : n < 10) : (Nat.digitChar n).toNat - '0'.toNat = n := by
  have hall : ∀ n, n < 10 → (Nat.digitChar n).toNat - '0'.toNat = n := by decide
  exact hall n h

theorem isDigit_digits (n : Nat) : ∀ c ∈ digits 10 n, c.isDigit = true := by
  induction n using Nat.strongRecOn with
  | _ n ih =>
    rw [digits]
    split
    · rename_i h
      simpa using isDigit_digitChar (by omega)
    · rename_i h
      intro c hc
      rcases List.mem_append.1 hc with hmem | hmem
      · exact ih (n / 10) (by omega) c hmem
      · rw [List.mem_singleton.1 hmem]
        exact isDigit_digitChar (by omega)

theorem value_digits (n : Nat) : value (digits 10 n) = n := by
  induction n using Nat.strongRecOn with
  | _ n ih =>
    rw [digits]
    split
    · rename_i h
      have hdigit := toNat_digitChar (n := n) (by omega)
      simpa [value] using hdigit
    · rename_i h
      have hdigit := toNat_digitChar (n := n % 10) (by omega)
      have hvalue := ih (n / 10) (by omega)
      rw [value] at hvalue
      rw [value, List.foldl_append, hvalue]
      simp only [List.foldl_cons, List.foldl_nil, hdigit]
      omega

theorem digits_ne_nil {base : Nat} (n : Nat) : digits base n ≠ [] := by
  rw [digits]
  split <;> simp

/-- Only zero itself starts with a zero. -/
theorem head?_digits {n : Nat} (hn : 0 < n) : (digits 10 n).head? ≠ some '0' := by
  induction n using Nat.strongRecOn with
  | _ n ih =>
    rw [digits]
    split
    · rename_i h
      have hall : ∀ n, n < 10 → 0 < n → Nat.digitChar n ≠ '0' := by decide
      simpa using hall n (by omega) hn
    · rename_i h
      have hhead := ih (n / 10) (by omega) (by omega)
      cases hdigits : digits 10 (n / 10) with
      | nil => exact absurd hdigits (digits_ne_nil _)
      | cons d ds => simpa [hdigits] using hhead

end Text

namespace Lexeme

theorem isNamePart_of_isDigit {c : Char} (h : c.isDigit = true) : isNamePart c = true := by
  obtain ⟨hlo, hhi⟩ := Char.isDigit_iff_toNat.1 h
  have hlo : ¬ c.toNat < 0x30 := Nat.not_lt.2 hlo
  have hhi : c.toNat ≤ 0x39 := hhi
  have hnumeral : Text.isNumeral c = true := by
    rw [Text.isNumeral, Text.numeralRanges, Text.Ranges.contains, if_neg hlo, if_pos hhi]
  rw [isNamePart, hnumeral, Bool.or_true]

theorem plain_of_isDigit {c : Char} (h : c.isDigit = true) :
    single? c = none ∧ (∀ d, double? c d = none) ∧ c ≠ '\x22' ∧ c ≠ '\x27' ∧ c ≠ '/' ∧
      Text.isBlank c = false := by
  refine ⟨?_, ?_, ?_, ?_, ?_, ?_⟩
  · unfold single?
    split <;> first | rfl | exact absurd h (by decide)
  · intro d
    unfold double?
    split <;> first | rfl | exact absurd h (by decide)
  · rintro rfl
    exact absurd h (by decide)
  · rintro rfl
    exact absurd h (by decide)
  · rintro rfl
    exact absurd h (by decide)
  · -- the digits lie between the second and the third range of blanks
    obtain ⟨hlo, hhi⟩ := Char.isDigit_iff_toNat.1 h
    have hlo : 0x30 ≤ c.toNat := hlo
    have hhi : c.toNat ≤ 0x39 := hhi
    rw [Text.isBlank, Text.blankRanges, Text.Ranges.contains, if_neg (by omega),
      if_neg (by omega), Text.Ranges.contains, if_neg (by omega), if_neg (by omega),
      Text.Ranges.contains, if_pos (by omega)]

theorem numberKind_digits {n : Nat} (hn : n ≤ maxInt) :
    numberKind (Text.digits 10 n) = .int n := by
  have hzero : ¬ (1 < (Text.digits 10 n).length ∧ (Text.digits 10 n).head? = some '0') := by
    rintro ⟨hlength, hhead⟩
    rcases Nat.eq_zero_or_pos n with rfl | hpos
    · rw [Text.digits] at hlength
      simp at hlength
    · exact Text.head?_digits hpos hhead
  rw [numberKind, if_neg hzero, Text.value_digits, if_pos hn]

theorem read_digits {n : Nat} {c : Char} {cs rest : List Char}
    (hdigits : Text.digits 10 n = c :: cs)
    (hn : n ≤ maxInt) (hrest : Stops rest) : read c (cs ++ rest) = (.int n, cs.length + 1) := by
  have hall := Text.isDigit_digits n
  rw [hdigits] at hall
  obtain ⟨hc, hcs⟩ := List.forall_mem_cons.1 hall
  obtain ⟨hsingle, hdouble, hquote, hmark, -, -⟩ := plain_of_isDigit hc
  have hsymbol : symbol? c (cs ++ rest) = none := by
    cases cs ++ rest <;> simp [symbol?, hsingle, hdouble]
  have hstop : HeadIn (fun d => !d.isDigit) rest := by
    refine hrest.mono fun d hd => ?_
    cases hdigit : d.isDigit with
    | false => rfl
    | true => simp [isNamePart_of_isDigit hdigit] at hd
  rw [read, hsymbol]
  simp only [hquote, hmark, hc, if_false, if_true, number, takeWhile_append_headIn hcs hstop]
  rw [← hdigits, numberKind_digits hn, hdigits, List.length_cons]

end Lexeme

theorem spells_decimal {n : Nat} (hn : n ≤ Lexeme.maxInt) :
    Spells Stops (Text.decimal n) [.int n] := by
  have hall := Text.isDigit_digits n
  cases hdigits : Text.digits 10 n with
  | nil => exact absurd hdigits (Text.digits_ne_nil n)
  | cons c cs =>
    rw [hdigits] at hall
    obtain ⟨-, -, -, -, hne, hblank⟩ := Lexeme.plain_of_isDigit (hall c List.mem_cons_self)
    have htext : (Text.decimal n).toList = c :: cs := by
      rw [Text.decimal, String.toList_ofList, hdigits]
    refine spells_token htext (fun rest _ => startsToken_of_ne hne hblank _)
      (fun rest hrest => Lexeme.read_digits hdigits hn hrest) rfl ?_
    intro d hd
    exact Lexeme.inLine_of_namePart (Lexeme.isNamePart_of_isDigit (hall d hd))

/-! ### Strings -/

/-- The spelling of a character is read back as that character. -/
theorem Lexeme.string_escapedChar (value : String) (width : Nat) (c : Char) (rest : List Char) :
    Lexeme.string value width (escapedChar c ++ rest) =
      Lexeme.string (value.push c) (width + (escapedChar c).length) rest := by
  unfold escapedChar
  split
  · simp [Lexeme.string, Lexeme.unescape?]
  · simp [Lexeme.string, Lexeme.unescape?]
  · simp [Lexeme.string, Lexeme.unescape?]
  · simp [Lexeme.string, Lexeme.unescape?]
  · simp [Lexeme.string, Lexeme.unescape?]
  · simp [Lexeme.string, Lexeme.unescape?]
  · rename_i hbackslash hquote _
    rw [List.singleton_append, Lexeme.string]
    · rfl
    · exact hquote
    · exact fun h _ => hbackslash h
    · exact fun _ _ h _ => hbackslash h

theorem Lexeme.string_escapedChars (value : String) (width : Nat) (cs rest : List Char) :
    Lexeme.string value width (escapedChars cs ++ '\x22' :: rest) =
      (.string (value ++ String.ofList cs), width + (escapedChars cs).length + 1) := by
  induction cs generalizing value width with
  | nil => simp [escapedChars, Lexeme.string]
  | cons c cs ih =>
    have hcons : escapedChars (c :: cs) = escapedChar c ++ escapedChars cs := rfl
    have hpush : value.push c ++ String.ofList cs = value ++ String.ofList (c :: cs) := by
      apply String.toList_injective
      simp
    rw [hcons, List.append_assoc, string_escapedChar, ih, hpush, List.length_append,
      Nat.add_assoc width]

theorem inLine_escapedChar (c : Char) : ∀ d ∈ escapedChar c, InLine d := by
  unfold escapedChar
  split
  · simp [InLine]
  · simp [InLine]
  · simp [InLine]
  · simp [InLine]
  · simp [InLine]
  · simp [InLine]
  · rename_i hlf _ hcr _ _ _
    intro d hd
    rw [List.mem_singleton.1 hd]
    exact ⟨hlf, hcr⟩

theorem toList_stringLiteral (value : String) :
    (stringLiteral value).toList = '\x22' :: (escapedChars value.toList ++ ['\x22']) := by
  simp [stringLiteral, escaped]

theorem inLine_stringLiteral (value : String) : ∀ c ∈ (stringLiteral value).toList, InLine c := by
  rw [toList_stringLiteral]
  intro d hd
  simp only [List.mem_cons, List.mem_append, List.not_mem_nil, or_false] at hd
  rcases hd with rfl | hmem | rfl
  · decide
  · rcases List.mem_flatMap.1 hmem with ⟨c, -, hc⟩
    exact inLine_escapedChar c d hc
  · decide

namespace Lexeme

theorem read_quote (rest : List Char) : read '\x22' rest = string "" 1 rest := by
  cases rest <;> simp [read, symbol?, double?, single?]

/-- The literal of a text is read as the text, and no character behind it is taken. -/
theorem read_stringLiteral (value : String) (rest : List Char) :
    read '\x22' ((escapedChars value.toList ++ ['\x22']) ++ rest) =
      (.string value, (escapedChars value.toList ++ ['\x22']).length + 1) := by
  rw [read_quote, List.append_assoc, List.singleton_append, string_escapedChars]
  simp [Nat.add_comm 1]

end Lexeme

theorem startsToken_quote (rest : List Char) : StartsToken '\x22' rest :=
  startsToken_of_ne (by decide) (by decide) rest

theorem spells_string (value : String) :
    Spells Anything (stringLiteral value) [.string value] := by
  have hline := inLine_stringLiteral value
  rw [toList_stringLiteral] at hline
  exact spells_token (toList_stringLiteral value) (fun rest _ => startsToken_quote _)
    (fun rest _ => Lexeme.read_stringLiteral value rest) rfl hline

/-! ### What the lexer gives -/

/-- The kinds that the lexer gives: numbers are small enough and names are names. -/
def Token.Kind.Lexical : Kind → Prop
  | .int value => value ≤ Lexeme.maxInt
  | .ident name => Lexeme.IsName name
  | _ => True

namespace Lexeme

theorem lexical_string (value : String) (width : Nat) (cs : List Char) :
    (string value width cs).1.Lexical := by
  fun_induction string value width cs <;> trivial

theorem lexical_char (cs : List Char) : (char cs).1.Lexical := by
  have hclose : ∀ (c : Char) (width : Nat) (cs : List Char), (closeChar c width cs).1.Lexical := by
    intro c width cs
    unfold closeChar
    split <;> trivial
  unfold char
  split
  · trivial
  · trivial
  · trivial
  · split
    · exact hclose _ _ _
    · trivial
  · exact hclose _ _ _

theorem lexical_numberKind (ds : List Char) : (numberKind ds).Lexical := by
  unfold numberKind
  split
  · trivial
  · split
    · rename_i h
      exact h
    · trivial

theorem lexical_wordKind {text : String} (h : IsWord text.toList) : (wordKind text).Lexical := by
  cases hkind : wordKind text with
  | ident name =>
    have hname : name = text := by
      unfold wordKind at hkind
      split at hkind
      · simp at hkind
      · split at hkind
        · simp at hkind
        · split at hkind
          · simp at hkind
          · simpa using hkind.symm
    subst hname
    exact ⟨h, hkind⟩
  | int value =>
    unfold wordKind at hkind
    repeat' split at hkind
    all_goals simp at hkind
  | _ => trivial

theorem lexical_read {c : Char} (hblank : Text.isBlank c = false) (rest : List Char) :
    (read c rest).1.Lexical := by
  unfold read
  split
  · trivial
  · split
    · exact lexical_string _ _ _
    · split
      · exact lexical_char _
      · split
        · exact lexical_numberKind _
        · split
          · rename_i hstart
            refine lexical_wordKind ⟨c, rest.takeWhile isNamePart, by simp, hstart, hblank, ?_⟩
            intro d hd
            exact List.mem_takeWhile_imp hd
          · trivial

end Lexeme

theorem Gap.isBlank_of_cross {line : Nat} {gap : Gap} {column : Nat} {cs : List Char}
    {column' : Nat} {c : Char} {rest : List Char}
    (h : cross line gap column cs = .token column' c rest) : Text.isBlank c = false := by
  fun_induction cross line gap column cs with
  | case1 => simp at h
  | case2 => simp at h
  | case3 column r ih => exact ih h
  | case4 column d r _ _ _ ih => exact ih h
  | case5 column d r _ _ hblank =>
    simp only [Stop.token.injEq] at h
    rw [← h.2.1]
    simpa using hblank
  | case6 start column r ih => exact ih h
  | case7 start column d r _ ih => exact ih h

namespace Cursor

theorem lexical_terminal (c : Cursor) (gap : Gap) : (c.terminal gap).kind.Lexical := by
  unfold terminal
  split <;> trivial

theorem lexical_nextIn (failure : Option ReadError) (later : List (List Char))
    (line column : Nat) (rest : List Char) (gap : Gap) :
    (nextIn failure later line column rest gap).1.kind.Lexical := by
  induction later generalizing line column rest gap with
  | nil =>
    unfold nextIn
    split
    · rename_i hcross
      exact Lexeme.lexical_read (Gap.isBlank_of_cross hcross) _
    · exact lexical_terminal _ _
  | cons next later ih =>
    unfold nextIn
    split
    · rename_i hcross
      exact Lexeme.lexical_read (Gap.isBlank_of_cross hcross) _
    · exact ih _ _ _ _

theorem lexical_tokens (c : Cursor) : ∀ t ∈ c.tokens, t.kind.Lexical := by
  induction hsize : c.size using Nat.strongRecOn generalizing c with
  | _ n ih =>
    have hnext : c.next.1.kind.Lexical := lexical_nextIn _ _ _ _ _ _
    intro t ht
    rw [tokens] at ht
    by_cases hterminal : c.next.1.isTerminal = true
    · rw [if_pos hterminal] at ht
      rw [List.mem_singleton.1 ht]
      exact hnext
    · rw [if_neg hterminal] at ht
      rcases List.mem_cons.1 ht with rfl | hmem
      · exact hnext
      · exact ih _ (hsize ▸ c.size_next_lt (by simpa using hterminal)) c.next.2 rfl t hmem

end Cursor

/-- The tokens are of kinds that the lexer gives. -/
def Token.AllLexical (ts : List Token) : Prop :=
  ∀ t ∈ ts, t.kind.Lexical

namespace Token

theorem allLexical_cons {t : Token} {ts : List Token} :
    AllLexical (t :: ts) ↔ t.kind.Lexical ∧ AllLexical ts :=
  List.forall_mem_cons

theorem allLexical_append {ts us : List Token} :
    AllLexical (ts ++ us) ↔ AllLexical ts ∧ AllLexical us :=
  List.forall_mem_append

/-- In front of the end of a source there are only tokens that the lexer gives. -/
theorem allLexical_of_source {source : Source} {ts us : List Token}
    (h : source.tokens = ts ++ us) : AllLexical ts := by
  intro t ht
  refine Cursor.lexical_tokens (Cursor.start source) t ?_
  rw [← Source.tokens, h]
  exact List.mem_append_left _ ht

end Token

end Shc
