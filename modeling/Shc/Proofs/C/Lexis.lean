import Shc.C.Literal
import Shc.Syntax.Operator
import Shc.Proofs.Lexing.Token

/-!
# The lexis of C

How C divides a text into tokens, as far as expressions go.  White space and comments
separate tokens, and of several punctuators the longest one is taken, so `--` is never
two signs and `/*` never a division.  Words are taken as they are.  What the language
of expressions has no use for is refused: character constants, numbers that are not
decimal, words in front of a quotation mark.
-/

namespace Shc.C

/-- The tokens of C. -/
inductive Token where
  | word (text : String)
  | number (value : Nat)
  | string (value : String)
  | punct (text : String)
deriving DecidableEq, Repr

/-! ### White space and comments -/

def isSpace (c : Char) : Bool :=
  c = ' ' || c = '\t' || c = '\n' || c = '\x0b' || c = '\x0c'

/-- How many characters a comment takes that ends in `*/`. -/
def blockComment : List Char → Option Nat
  | '*' :: '/' :: _ => some 2
  | _ :: cs => (blockComment cs).map (· + 1)
  | [] => none

/-! ### Punctuators -/

/-- The punctuators of C, longer ones in front of shorter ones. -/
def punctuators : List String :=
  ["%:%:", "...", "<<=", ">>=",
    "->", "++", "--", "<<", ">>", "<=", ">=", "==", "!=", "&&", "||", "*=", "/=", "%=", "+=",
    "-=", "&=", "^=", "|=", "##", "<:", ":>", "<%", "%>", "%:",
    "[", "]", "(", ")", "\x7b", "\x7d", ".", "&", "*", "+", "-", "~", "!", "/", "%", "<", ">",
    "^", "|", "?", ":", ";", "=", ",", "#"]

/-- The longest punctuator at the front. -/
def munch (cs : List Char) : Option String :=
  punctuators.find? fun p => p.toList.isPrefixOf cs

/-! ### Words and numbers -/

/-- A character of a word; beyond ASCII nothing is told apart. -/
def isWordPart (c : Char) : Bool :=
  c.isAlphanum || c = '_' || 128 ≤ c.toNat

def isQuote (c : Char) : Bool :=
  c = '\x22' || c = '\x27'

/-- A word from its first character on, and how many characters follow that one. -/
def word (c : Char) (rest : List Char) : Option (Token × Nat) :=
  let cs := rest.takeWhile isWordPart
  if (rest.drop cs.length).head?.any isQuote then none
  else some (.word (String.ofList (c :: cs)), cs.length)

/-- The characters that go on with a number: a sign can follow the letter of an exponent. -/
def numberTail : List Char → List Char
  | [] => []
  | [c] => if isWordPart c ∨ c = '.' then [c] else []
  | c :: d :: rest =>
    if c ∈ ['e', 'E', 'p', 'P'] ∧ d ∈ ['+', '-'] then c :: d :: numberTail rest
    else if isWordPart c ∨ c = '.' then c :: numberTail (d :: rest)
    else []

/-- A decimal number from its first digit on, and how many characters follow that one. -/
def number (c : Char) (rest : List Char) : Option (Token × Nat) :=
  let cs := numberTail rest
  if (c :: cs).all Char.isDigit ∧ (c = '0' → cs = []) then
    some (.number (Text.value (c :: cs)), cs.length)
  else none

/-! ### Strings -/

/-- What a backslash and a character stand for, octal digits apart. -/
def simpleEscape? : Char → Option Char
  | '\x27' => some '\x27'
  | '\x22' => some '\x22'
  | '?' => some '?'
  | '\\' => some '\\'
  | 'a' => some '\x07'
  | 'b' => some '\x08'
  | 'f' => some '\x0c'
  | 'n' => some '\n'
  | 'r' => some '\r'
  | 't' => some '\t'
  | 'v' => some '\x0b'
  | _ => none

def isOctal (c : Char) : Bool :=
  '0' ≤ c && c ≤ '7'

def octalValue (cs : List Char) : Nat :=
  cs.foldl (fun n c => 8 * n + (c.toNat - '0'.toNat)) 0

/-- The character that an escape stands for, from behind its backslash, and how many
    characters it takes there: up to three octal digits, or one other character. -/
def escape (cs : List Char) : Option (Char × Nat) :=
  match (cs.take 3).takeWhile isOctal with
  | [] => cs.head?.bind fun c => (simpleEscape? c).map (·, 1)
  | ds => if octalValue ds < 128 then some (Char.ofNat (octalValue ds), ds.length) else none

/-- The rest of a string, from behind its opening mark: the characters that it stands
    for and how many it takes. -/
def string (cs : List Char) : Option (List Char × Nat) :=
  match cs with
  | [] => none
  | c :: rest =>
    if c = '\x22' then some ([], 1)
    else if c = '\n' then none
    else if c = '\\' then
      match escape rest with
      | none => none
      | some (d, n) => (string (rest.drop n)).map fun r => (d :: r.1, n + r.2 + 1)
    else (string rest).map fun r => (c :: r.1, r.2 + 1)
termination_by cs.length
decreasing_by
  · simp only [List.length_drop, List.length_cons]
    omega
  · simp

/-! ### Any token -/

/-- What stands at the front, if it is a token, and how many characters follow the
    first one of it. -/
def step (c : Char) (rest : List Char) : Option (Option Token × Nat) :=
  if isSpace c then some (none, 0)
  else if c = '/' ∧ rest.head? = some '/' then
    some (none, (rest.takeWhile (· ≠ '\n')).length)
  else if c = '/' ∧ rest.head? = some '*' then
    (blockComment rest.tail).map fun n => (none, n + 1)
  else if c = '\x22' then
    (string rest).map fun r => (some (.string (String.ofList r.1)), r.2)
  else if c.isDigit then (number c rest).map fun r => (some r.1, r.2)
  else if isWordPart c then (word c rest).map fun r => (some r.1, r.2)
  else (munch (c :: rest)).map fun p => (some (.punct p), p.toList.length - 1)

def lex (cs : List Char) : Option (List Token) :=
  match cs with
  | [] => some []
  | c :: rest =>
    match step c rest with
    | none => none
    | some (token, n) => (lex (rest.drop n)).map (token.toList ++ ·)
termination_by cs.length
decreasing_by
  simp only [List.length_drop, List.length_cons]
  omega

/-! ### Parts of a text -/

/-- The text adds these tokens in front of any characters with the property. -/
abbrev Spells : (List Char → Prop) → String → List Token → Prop :=
  Adds fun cs ts => lex cs = some ts

theorem spells_of_step {follow : List Char → Prop} {text : String} {c : Char} {cs : List Char}
    (token : Option Token) (htext : text.toList = c :: cs)
    (hstep : ∀ rest, follow rest → step c (cs ++ rest) = some (token, cs.length)) :
    Spells follow text token.toList := by
  intro rest ts hrest hlex
  rw [htext, List.cons_append, lex, hstep rest hrest]
  dsimp only
  rw [List.drop_left, hlex, Option.map_some]

theorem spells_space : Spells Anything " " [] :=
  spells_of_step none rfl fun _ _ => rfl

theorem spells_lparen : Spells Anything "(" [.punct "("] :=
  spells_of_step (some (.punct "(")) rfl fun _ _ => rfl

theorem spells_rparen : Spells Anything ")" [.punct ")"] :=
  spells_of_step (some (.punct ")")) rfl fun _ _ => rfl

theorem spells_comma : Spells Anything "," [.punct ","] :=
  spells_of_step (some (.punct ",")) rfl fun _ _ => rfl

theorem spells_semicolon : Spells Anything ";" [.punct ";"] :=
  spells_of_step (some (.punct ";")) rfl fun _ _ => rfl

theorem spells_lbrace : Spells Anything "\x7b" [.punct "\x7b"] :=
  spells_of_step (some (.punct "\x7b")) rfl fun _ _ => rfl

theorem spells_rbrace : Spells Anything "\x7d" [.punct "\x7d"] :=
  spells_of_step (some (.punct "\x7d")) rfl fun _ _ => rfl

theorem spells_operator (op : Operator) : Spells SpaceNext op.text [.punct op.text] := by
  cases op with
  | or | and | eq | ne | lt | le | gt | ge | add | sub | mul | div | mod =>
    refine spells_of_step (some _) rfl ?_
    intro rest hrest
    obtain ⟨rest, rfl⟩ := List.head?_eq_some_iff.1 hrest
    rfl

/-- A punctuator of one character that the next character makes no longer. -/
theorem spells_single {c : Char} {text : String} {p : Char → Bool} (htext : text.toList = [c])
    (hplain : isSpace c = false ∧ c ≠ '/' ∧ c ≠ '\x22' ∧ c.isDigit = false ∧ isWordPart c = false)
    (hnil : munch [c] = some text)
    (hcons : ∀ d rest, p d = true → munch (c :: d :: rest) = some text) :
    Spells (HeadIn p) text [.punct text] := by
  obtain ⟨hspace, hslash, hquote, hdigit, hword⟩ := hplain
  refine spells_of_step (some (.punct text)) htext ?_
  intro rest hrest
  have hmunch : munch (c :: rest) = some text := by
    cases rest with
    | nil => exact hnil
    | cons d rest => exact hcons d rest (hrest d rfl)
  simp [step, hspace, hslash, hquote, hdigit, hword, hmunch, htext]

/-- What can stand behind a sign: nothing that makes a longer punctuator of it. -/
abbrev SignEnds : List Char → Prop :=
  HeadIn fun c => c ∉ ['+', '-', '=', '>']

theorem spells_sign (sign : Sign) : Spells SignEnds sign.text [.punct sign.text] := by
  cases sign with
  | plus =>
    refine spells_single (c := '+') rfl (by decide) rfl ?_
    intro d rest hd
    have hne : '+' ≠ d ∧ '=' ≠ d := by
      constructor <;> rintro rfl <;> simp at hd
    simp [Sign.text, munch, punctuators, List.isPrefixOf, hne]
  | minus =>
    refine spells_single (c := '-') rfl (by decide) rfl ?_
    intro d rest hd
    have hne : '-' ≠ d ∧ '=' ≠ d ∧ '>' ≠ d := by
      refine ⟨?_, ?_, ?_⟩ <;> rintro rfl <;> simp at hd
    simp [Sign.text, munch, punctuators, List.isPrefixOf, hne]

/-- A star in front of another one or of a word. -/
theorem spells_star : Spells (HeadIn (· ≠ '=')) "*" [.punct "*"] := by
  refine spells_single (c := '*') rfl (by decide) rfl ?_
  intro d rest hd
  have hne : '=' ≠ d := by
    rintro rfl
    simp at hd
  simp [munch, punctuators, List.isPrefixOf, hne]

theorem spells_ampersand : Spells (HeadIn fun c => c ∉ ['&', '=']) "&" [.punct "&"] := by
  refine spells_single (c := '&') rfl (by decide) rfl ?_
  intro d rest hd
  have hne : '&' ≠ d ∧ '=' ≠ d := by
    constructor <;> rintro rfl <;> simp at hd
  simp [munch, punctuators, List.isPrefixOf, hne]

/-! ### Words -/

theorem isWordPart_of_namePart {c : Char} (h : Lexeme.isNamePart c = true) :
    isWordPart c = true := by
  by_cases hlt : c.toNat < 128
  · have hall : ∀ n, n < 128 → Lexeme.isNamePart (Char.ofNat n) = true →
        isWordPart (Char.ofNat n) = true := by decide
    have hchar := hall c.toNat hlt
    rw [Char.ofNat_toNat] at hchar
    exact hchar h
  · simp [isWordPart, Nat.not_lt.1 hlt]

def isSeparator (c : Char) : Bool :=
  c ∈ [' ', '(', ')', ',', ';']

/-- What can stand behind a word, a number or a string. -/
abbrev Separated : List Char → Prop :=
  HeadIn isSeparator

theorem plain_of_separator {c : Char} (h : isSeparator c = true) :
    isWordPart c = false ∧ isQuote c = false ∧ c ≠ '.' ∧ c ∉ ['e', 'E', 'p', 'P'] := by
  simp only [isSeparator, List.mem_cons, List.not_mem_nil, or_false, decide_eq_true_eq] at h
  rcases h with rfl | rfl | rfl | rfl | rfl <;> decide

theorem isSpace_of_nameStart {c : Char} (h : Lexeme.isNameStart c = true) : isSpace c = false := by
  by_contra hspace
  simp only [isSpace, Bool.not_eq_false, Bool.or_eq_true, decide_eq_true_eq] at hspace
  rcases hspace with (((rfl | rfl) | rfl) | rfl) | rfl <;> exact absurd h (by decide)

theorem spells_word {name : String} (h : Lexeme.IsWord name.toList) :
    Spells Separated name [.word name] := by
  obtain ⟨c, tail, hname, hc, -, htail⟩ := h
  obtain ⟨-, -, hquote, -, hslash, hdigit⟩ := Lexeme.plain_of_nameStart hc
  refine spells_of_step (some (.word name)) hname ?_
  intro rest hrest
  have htake : (tail ++ rest).takeWhile isWordPart = tail := by
    refine takeWhile_append_headIn (fun d hd => isWordPart_of_namePart (htail d hd)) ?_
    exact hrest.mono fun d hd => by simp [(plain_of_separator hd).1]
  have hnext : rest.head?.any isQuote = false := by
    cases rest with
    | nil => rfl
    | cons d rest => simpa using (plain_of_separator (hrest d rfl)).2.1
  have hword : word c (tail ++ rest) = some (.word name, tail.length) := by
    simp [word, htake, hnext, ← hname]
  simp [step, isSpace_of_nameStart hc, hslash, hquote, hdigit, hword,
    isWordPart_of_namePart (Lexeme.isNamePart_of_nameStart hc)]

/-! ### Numbers -/

theorem plain_of_isDigit {c : Char} (h : c.isDigit = true) :
    isSpace c = false ∧ c ≠ '/' ∧ c ≠ '\x22' ∧ isWordPart c = true ∧ c ∉ ['e', 'E', 'p', 'P'] := by
  have hall : ∀ n, n < 128 → (Char.ofNat n).isDigit = true →
      isSpace (Char.ofNat n) = false ∧ Char.ofNat n ≠ '/' ∧ Char.ofNat n ≠ '\x22' ∧
        isWordPart (Char.ofNat n) = true ∧ Char.ofNat n ∉ ['e', 'E', 'p', 'P'] := by decide
  have hle : c.toNat ≤ 57 := (Char.isDigit_iff_toNat.1 h).2
  have hchar := hall c.toNat (by omega)
  rw [Char.ofNat_toNat] at hchar
  exact hchar h

theorem numberTail_digits {ds rest : List Char} (hds : ∀ d ∈ ds, d.isDigit = true)
    (hrest : Separated rest) : numberTail (ds ++ rest) = ds := by
  induction ds with
  | nil =>
    cases rest with
    | nil => rfl
    | cons c rest =>
      obtain ⟨hword, -, hdot, hexponent⟩ := plain_of_separator (hrest c rfl)
      cases rest with
      | nil => simp [numberTail, hword, hdot]
      | cons d rest => simp [numberTail, hword, hdot, hexponent]
  | cons d ds ih =>
    obtain ⟨hd, hds⟩ := List.forall_mem_cons.1 hds
    obtain ⟨-, -, -, hword, hexponent⟩ := plain_of_isDigit hd
    have htail := ih hds
    cases hrow : ds ++ rest with
    | nil =>
      obtain ⟨rfl, rfl⟩ := List.append_eq_nil_iff.1 hrow
      simp [numberTail, hword]
    | cons e row =>
      rw [hrow] at htail
      simp [numberTail, hrow, hword, hexponent, htail]

theorem spells_decimal (n : Nat) : Spells Separated (Text.decimal n) [.number n] := by
  cases hdigits : Text.digits 10 n with
  | nil => exact absurd hdigits (Text.digits_ne_nil n)
  | cons c cs =>
    have hall := Text.isDigit_digits n
    have hvalue := Text.value_digits n
    rw [hdigits] at hall hvalue
    obtain ⟨hc, hcs⟩ := List.forall_mem_cons.1 hall
    obtain ⟨hspace, hslash, hquote, -, -⟩ := plain_of_isDigit hc
    have hzero : c = '0' → cs = [] := by
      rintro rfl
      rcases Nat.eq_zero_or_pos n with rfl | hpos
      · rw [Text.digits] at hdigits
        simpa using hdigits.symm
      · exact absurd (by rw [hdigits]; rfl) (Text.head?_digits hpos)
    have htext : (Text.decimal n).toList = c :: cs := by
      rw [Text.decimal, hdigits, String.toList_ofList]
    refine spells_of_step (some (.number n)) htext ?_
    intro rest hrest
    have hnumber : number c (cs ++ rest) = some (.number n, cs.length) := by
      rw [number, numberTail_digits hcs hrest, if_pos ⟨List.all_eq_true.2 hall, hzero⟩, hvalue]
    simp [step, hspace, hslash, hquote, hc, hnumber]

/-! ### Strings -/

theorem string_escape {cs rest : List Char} {c : Char}
    (h : escape (cs ++ rest) = some (c, cs.length)) :
    string ('\\' :: cs ++ rest) =
      (string rest).map fun r => (c :: r.1, r.2 + ('\\' :: cs).length) := by
  rw [List.cons_append, string, if_neg (by decide), if_neg (by decide), if_pos rfl, h]
  dsimp only
  rw [List.drop_left]
  congr 1
  funext r
  rw [List.length_cons, Nat.add_comm cs.length r.2, Nat.add_assoc]

theorem escape_simple {c d : Char} (hoctal : isOctal c = false) (hc : simpleEscape? c = some d)
    (rest : List Char) : escape (c :: rest) = some (d, 1) := by
  simp [escape, hoctal, hc]

/-- A single zero is an escape of its own where no octal digit follows. -/
theorem escape_zero {rest : List Char} (hrest : HeadIn (fun c => !isOctal c) rest) :
    escape ('0' :: rest) = some ('\x00', 1) := by
  have htake : (('0' :: rest).take 3).takeWhile isOctal = ['0'] := by
    have hzero : isOctal '0' = true := by decide
    cases rest with
    | nil => rfl
    | cons c rest =>
      have hc : isOctal c = false := by simpa using hrest c rfl
      simp [hc, hzero]
  rw [escape, htake]
  rfl

theorem escape_octal {n : Nat} (hn : n < 128) (rest : List Char) :
    escape (Text.padded 8 3 n ++ rest) = some (Char.ofNat n, 3) := by
  have hall : ∀ n, n < 128 → (Text.padded 8 3 n).takeWhile isOctal = Text.padded 8 3 n ∧
      octalValue (Text.padded 8 3 n) = n := by decide
  obtain ⟨hoctal, hvalue⟩ := hall n hn
  have htake : (Text.padded 8 3 n ++ rest).take 3 = Text.padded 8 3 n := rfl
  rw [escape, htake, hoctal]
  obtain ⟨a, b, c, hdigits⟩ : ∃ a b c, Text.padded 8 3 n = [a, b, c] := ⟨_, _, _, rfl⟩
  rw [hdigits] at hvalue ⊢
  dsimp only
  rw [hvalue, if_pos hn]
  rfl

/-- The ways in which a character is spelled in front of the characters `cs`. -/
inductive Escapes (c : Char) (cs : List Char) : List Char → Prop where
  | simple {e : Char} : isOctal e = false → isControl e = false → simpleEscape? e = some c →
      Escapes c cs ['\\', e]
  | octal : c.toNat < 128 → Escapes c cs ('\\' :: Text.padded 8 3 c.toNat)
  | zero : c = '\x00' → cs.head?.any Char.isDigit = false → Escapes c cs ['\\', '0']
  | plain : c ≠ '\x22' → c ≠ '\n' → c ≠ '\\' → isControl c = false → Escapes c cs [c]

theorem escapes_escapedChar (c : Char) (cs : List Char) : Escapes c cs (escapedChar c cs) := by
  rw [escapedChar]
  by_cases hlf : c = '\n'
  · rw [if_pos hlf, hlf]
    exact .simple rfl rfl rfl
  by_cases htab : c = '\t'
  · rw [if_neg hlf, if_pos htab, htab]
    exact .simple rfl rfl rfl
  by_cases hcr : c = '\r'
  · rw [if_neg hlf, if_neg htab, if_pos hcr, hcr]
    exact .simple rfl rfl rfl
  by_cases hbackslash : c = '\\'
  · rw [if_neg hlf, if_neg htab, if_neg hcr, if_pos hbackslash, hbackslash]
    exact .simple rfl rfl rfl
  by_cases hquote : c = '\x22'
  · rw [if_neg hlf, if_neg htab, if_neg hcr, if_neg hbackslash, if_pos hquote, hquote]
    exact .simple rfl rfl rfl
  rw [if_neg hlf, if_neg htab, if_neg hcr, if_neg hbackslash, if_neg hquote]
  by_cases hzero : c = '\x00'
  · rw [if_pos hzero]
    cases hdigit : cs.head?.any Char.isDigit with
    | true =>
      subst hzero
      exact .octal (by decide)
    | false => exact .zero hzero hdigit
  rw [if_neg hzero]
  cases hcontrol : isControl c with
  | true =>
    have hlt : c.toNat < 128 := by
      simp only [isControl, Bool.or_eq_true, decide_eq_true_eq] at hcontrol
      omega
    exact .octal hlt
  | false => exact .plain hquote hlf hbackslash hcontrol

/-- What stands for a character is read as that character; only the short form for the
    zero character needs to know what comes next. -/
theorem Escapes.string {c : Char} {cs spelled rest : List Char} (h : Escapes c cs spelled)
    (hrest : cs.head?.any Char.isDigit = false → HeadIn (fun d => !isOctal d) rest) :
    C.string (spelled ++ rest) =
      (C.string rest).map fun r => (c :: r.1, r.2 + spelled.length) := by
  cases h with
  | simple hoctal _ hsimple => exact string_escape (escape_simple hoctal hsimple rest)
  | octal hlt =>
    have hescape := escape_octal hlt rest
    rw [Char.ofNat_toNat] at hescape
    exact string_escape hescape
  | zero hzero hdigit =>
    rw [hzero]
    exact string_escape (escape_zero (hrest hdigit))
  | plain hquote hlf hbackslash _ =>
    rw [List.singleton_append, C.string, if_neg hquote, if_neg hlf, if_neg hbackslash]
    rfl

theorem isDigit_of_isOctal {c : Char} (h : isOctal c = true) : c.isDigit = true := by
  simp only [isOctal, Bool.and_eq_true, decide_eq_true_eq, Char.le_def, UInt32.le_iff_toNat_le] at h
  exact Char.isDigit_iff_toNat.2 ⟨h.1, Nat.le_trans h.2 (by decide)⟩

/-- The first character of a spelling is a backslash or the character itself. -/
theorem Escapes.headIn {c : Char} {cs spelled : List Char} (h : Escapes c cs spelled)
    (hc : isOctal c = false) (rest : List Char) :
    HeadIn (fun d => !isOctal d) (spelled ++ rest) := by
  cases h with
  | plain => exact headIn_cons (by rw [hc]; rfl) _
  | _ => exact headIn_cons (by decide) _

theorem headIn_escapedChars {cs : List Char} (h : cs.head?.any Char.isDigit = false)
    (rest : List Char) : HeadIn (fun d => !isOctal d) (escapedChars cs ++ '\x22' :: rest) := by
  cases cs with
  | nil => exact headIn_cons (by decide) rest
  | cons c cs =>
    have hc : isOctal c = false := by
      have hdigit : c.isDigit = false := by simpa using h
      cases hoctal : isOctal c with
      | false => rfl
      | true => rw [isDigit_of_isOctal hoctal] at hdigit; exact hdigit
    rw [escapedChars, List.append_assoc]
    exact (escapes_escapedChar c cs).headIn hc _

theorem string_escapedChars (cs rest : List Char) :
    string (escapedChars cs ++ '\x22' :: rest) = some (cs, (escapedChars cs).length + 1) := by
  induction cs with
  | nil => simp [escapedChars, string]
  | cons c cs ih =>
    rw [escapedChars, List.append_assoc,
      (escapes_escapedChar c cs).string fun h => headIn_escapedChars h rest, ih]
    simp
    omega

theorem spells_string (value : String) :
    Spells Anything (stringLiteral value) [.string value] := by
  have htext : (stringLiteral value).toList =
      '\x22' :: (escapedChars value.toList ++ ['\x22']) := by
    simp [stringLiteral, escaped]
  refine spells_of_step (some (.string value)) htext ?_
  intro rest _
  rw [List.append_assoc, List.singleton_append]
  simp [step, isSpace, string_escapedChars]

end Shc.C
