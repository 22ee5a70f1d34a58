import Shc.Proofs.C.Parens

/-!
# The lines of a body

Every line in the body of a function is a statement by itself, the head of a branch or a
loop, or a line of braces that ends a body.  `Row` lists these kinds with what they say, and
`Row.ofChars` tells them apart by the leading word and the braces alone.  A line that was
written for a row is read as this row.
-/

namespace Shc.C

open Text (Unbroken)

/-- A statement that takes one line. -/
inductive Simple where
  | ret (value : Option String)
  | brk
  | cont
  /-- A declaration, a call or an assignment, without the semicolon. -/
  | other (text : String)
deriving DecidableEq, Repr

/-- A line in the body of a function. -/
inductive Row where
  | simple (s : Simple)
  | ifHead (condition : String)
  | whileHead (condition : String)
  | otherwise
  | leave
deriving DecidableEq, Repr

def Simple.text : Simple → String
  | ret none => "return;"
  | ret (some value) => "return " ++ value ++ ";"
  | brk => "break;"
  | cont => "continue;"
  | other text => text ++ ";"

def Row.text : Row → String
  | simple s => s.text
  | ifHead condition => "if " ++ condition ++ " \x7b"
  | whileHead condition => "while " ++ condition ++ " \x7b"
  | otherwise => "\x7d else \x7b"
  | leave => "\x7d"

/-! ### Reading a line -/

/-- What stands between the two texts, if a line starts with one and ends with the other. -/
def between (front back : String) (cs : List Char) : Option String :=
  let inner := (cs.drop front.length).take (cs.length - front.length - back.length)
  if cs = front.toList ++ inner ++ back.toList then some (String.ofList inner) else none

def leadingWord (cs : List Char) : String :=
  String.ofList (cs.takeWhile isWordPart)

/-- The row that a line without its indentation is. -/
def Row.ofChars (cs : List Char) : Option Row :=
  if cs.head? = some '\x7d' then
    if cs = "\x7d".toList then some .leave
    else if cs = "\x7d else \x7b".toList then some .otherwise
    else none
  else if leadingWord cs = "if" then (between "if " " \x7b" cs).map .ifHead
  else if leadingWord cs = "while" then (between "while " " \x7b" cs).map .whileHead
  else if leadingWord cs = "return" then
    if cs = "return;".toList then some (.simple (.ret none))
    else (between "return " ";" cs).map fun value => .simple (.ret (some value))
  else if leadingWord cs = "break" then
    if cs = "break;".toList then some (.simple .brk) else none
  else if leadingWord cs = "continue" then
    if cs = "continue;".toList then some (.simple .cont) else none
  else (between "" ";" cs).map fun text => .simple (.other text)

/-- A line without the spaces in front. -/
def unindented (line : List Char) : List Char :=
  line.dropWhile (· = ' ')

/-- The row that a line is. -/
def Row.ofLine (line : List Char) : Option Row :=
  Row.ofChars (unindented line)

theorem between_append (front inner back : String) :
    between front back (front ++ inner ++ back).toList = some inner := by
  have hinner : ((front ++ inner ++ back).toList.drop front.length).take
      ((front ++ inner ++ back).toList.length - front.length - back.length) = inner.toList := by
    simp [← String.length_toList]
  rw [between, hinner, String.ofList_toList]
  simp

theorem leadingWord_append {word rest : String} (hword : word.toList.all isWordPart = true)
    (hrest : StartsIn (fun c => !isWordPart c) rest) :
    leadingWord (word ++ rest).toList = word := by
  have hhead := hrest.headIn []
  rw [List.append_nil] at hhead
  rw [leadingWord, String.toList_append, takeWhile_append_headIn (List.all_eq_true.1 hword) hhead,
    String.ofList_toList]

/-- A space behind a word ends it, whatever follows. -/
theorem leadingWord_spaced {front : String} (word : String) (hfront : front = word ++ " ")
    (hword : word.toList.all isWordPart = true) (inner back : String) :
    leadingWord (front ++ inner ++ back).toList = word := by
  rw [hfront, String.append_assoc, String.append_assoc]
  exact leadingWord_append hword (StartsIn.append (by decide) _)

/-! ### Rows as they are written -/

/-- The words that a line with a statement of another kind starts with. -/
def rowWords : List String :=
  ["if", "while", "return", "break", "continue"]

/-- The line with this text and a semicolon can be nothing but a plain statement. -/
structure Other (text : String) : Prop where
  starts : StartsIn (fun c => c ∉ [' ', '\x7d']) text
  word : leadingWord (text ++ ";").toList ∉ rowWords

theorem Other.of_word {word rest : String} (hword : word.toList.all isWordPart = true)
    (hne : word ≠ "") (hnot : word ∉ rowWords) (hrest : StartsIn (fun c => !isWordPart c) rest) :
    Other (word ++ rest) := by
  constructor
  · refine StartsIn.append ?_ rest
    cases hcs : word.toList with
    | nil => exact absurd (String.toList_eq_nil_iff.1 hcs) hne
    | cons c cs =>
      have hc := List.all_eq_true.1 hword c (by rw [hcs]; exact List.mem_cons_self)
      have hmem : c ∉ [' ', '\x7d'] := notMem_of_class hc (by decide)
      simpa [StartsIn, hcs] using hmem
  · rw [String.append_assoc, leadingWord_append hword (hrest.append ";")]
    exact hnot

/-- A name is no word with a meaning of its own. -/
theorem Other.of_name {name rest : String} (hname : Lexeme.IsName name)
    (hrest : StartsIn (fun c => !isWordPart c) rest) : Other (name ++ rest) := by
  rcases hname.isWord with ⟨c, tail, hchars, hstart, -, htail⟩
  refine .of_word ?_ ?_ ?_ hrest
  · rw [hchars, List.all_eq_true]
    refine List.forall_mem_cons.2 ⟨?_, fun d hd => isWordPart_of_namePart (htail d hd)⟩
    exact isWordPart_of_namePart (Lexeme.isNamePart_of_nameStart hstart)
  · rintro rfl
    cases hchars
  · have hkind := hname.kind_eq
    rintro hmem
    simp only [rowWords, List.mem_cons, List.not_mem_nil, or_false] at hmem
    rcases hmem with rfl | rfl | rfl | rfl | rfl <;> exact absurd hkind (by decide)

/-- What the row says can be told from its text. -/
def Row.Legible (r : Row) : Prop :=
  ∀ text, r = .simple (.other text) → Other text

/-- A row with the texts of a statement in it. -/
structure Row.Proper (r : Row) : Prop where
  unbroken : Unbroken r.text
  legible : r.Legible
  enclosed : ∀ condition, r = .ifHead condition ∨ r = .whileHead condition → Enclosed condition

namespace Row

/-- Whether the row opens a body. -/
def opens : Row → Bool
  | ifHead _ => true
  | whileHead _ => true
  | otherwise => true
  | _ => false

/-- Whether the row ends a body. -/
def closes : Row → Bool
  | otherwise => true
  | leave => true
  | _ => false

variable {r : Row}

theorem eq_of_closes (hr : r.closes = true) : r = otherwise ∨ r = leave := by
  cases r with
  | otherwise => exact .inl rfl
  | leave => exact .inr rfl
  | simple s => cases hr
  | ifHead condition => cases hr
  | whileHead condition => cases hr

theorem Legible.starts (h : r.Legible) (hr : r.closes = false) :
    StartsIn (fun c => c ∉ [' ', '\x7d']) r.text := by
  cases r with
  | simple s =>
    cases s with
    | ret value =>
      cases value with
      | none => decide
      | some value => exact StartsIn.append (StartsIn.append (by decide) value) ";"
    | brk => decide
    | cont => decide
    | other text => exact (h text rfl).starts.append ";"
  | ifHead condition => exact StartsIn.append (StartsIn.append (by decide) condition) _
  | whileHead condition => exact StartsIn.append (StartsIn.append (by decide) condition) _
  | otherwise => cases hr
  | leave => cases hr

/-- A line that was written for a row is read as this row. -/
theorem Legible.ofChars_text (h : r.Legible) : ofChars r.text.toList = some r := by
  cases hcloses : r.closes with
  | true =>
    rcases eq_of_closes hcloses with rfl | rfl <;> decide
  | false =>
    have hhead : r.text.toList.head? ≠ some '\x7d' := by
      intro hbrace
      have hstarts := h.starts hcloses
      rw [StartsIn, hbrace] at hstarts
      cases hstarts
    rw [ofChars, if_neg hhead]
    cases r with
    | otherwise => cases hcloses
    | leave => cases hcloses
    | ifHead condition =>
      have hword : leadingWord (ifHead condition).text.toList = "if" :=
        leadingWord_spaced _ (by decide) (by decide) condition _
      rw [if_pos hword, text, between_append, Option.map_some]
    | whileHead condition =>
      have hword : leadingWord (whileHead condition).text.toList = "while" :=
        leadingWord_spaced _ (by decide) (by decide) condition _
      rw [hword, if_neg (by decide), if_pos rfl, text, between_append, Option.map_some]
    | simple s =>
      cases s with
      | brk => decide
      | cont => decide
      | ret value =>
        cases value with
        | none => decide
        | some value =>
          have hword : leadingWord (simple (.ret (some value))).text.toList = "return" :=
            leadingWord_spaced _ (by decide) (by decide) value _
          have hspace : (simple (.ret (some value))).text.toList ≠ "return;".toList := by
            simp [text, Simple.text]
          rw [hword, if_neg (by decide), if_neg (by decide), if_pos rfl, if_neg hspace, text,
            Simple.text, between_append, Option.map_some]
      | other text =>
        -- no other kind of line starts with this word, so the last case is the one that is left
        have hword := (h text rfl).word
        have hbetween := between_append "" text ";"
        rw [String.empty_append] at hbetween
        simp only [rowWords, List.mem_cons, List.not_mem_nil, or_false, not_or] at hword
        rcases hword with ⟨hif, hwhile, hreturn, hbreak, hcontinue⟩
        rw [Row.text, Simple.text, if_neg hif, if_neg hwhile, if_neg hreturn, if_neg hbreak,
          if_neg hcontinue, hbetween, Option.map_some]

end Row

/-! ### Rows at a level -/

/-- Whether a line ends with an opening brace. -/
def opensBrace (line : List Char) : Bool :=
  line.getLast? = some '\x7b'

/-- Whether a line starts with a closing brace. -/
def closesBrace (line : List Char) : Bool :=
  (unindented line).head? = some '\x7d'

theorem unindented_chars {text : String} (h : StartsIn (· ≠ ' ') text) (level : Nat) :
    unindented (Line.chars ⟨level, text⟩) = text.toList := by
  rw [unindented, Line.chars, List.dropWhile_append_of_pos]
  · cases htext : text.toList with
    | nil => rfl
    | cons c cs =>
      rw [StartsIn, htext] at h
      exact List.dropWhile_cons_of_neg (by simpa using h)
  · intro c hc
    rw [List.eq_of_mem_replicate hc]
    rfl

theorem startsIn_dark {text : String} (h : StartsIn (fun c => c ∉ [' ', '\x7d']) text) :
    StartsIn (· ≠ ' ') text := by
  refine h.mono ?_
  intro c hc
  simp only [List.mem_cons, not_or, decide_eq_true_eq] at hc
  exact decide_eq_true hc.1

theorem closesBrace_chars {text : String} (h : StartsIn (fun c => c ∉ [' ', '\x7d']) text)
    (level : Nat) : closesBrace (Line.chars ⟨level, text⟩) = false := by
  rw [closesBrace, unindented_chars (startsIn_dark h)]
  rw [StartsIn, Option.any_eq_true] at h
  rcases h with ⟨c, hc, hbrace⟩
  simp only [List.mem_cons, List.not_mem_nil, not_or, or_false, decide_eq_true_eq] at hbrace
  simpa [hc] using hbrace.2

theorem getLast?_append_text (front : String) {back : String} {c : Char}
    (h : back.toList.getLast? = some c) : (front ++ back).toList.getLast? = some c := by
  rw [String.toList_append, List.getLast?_append, h, Option.some_or]

theorem opensBrace_chars {text : String} {c : Char} (h : text.toList.getLast? = some c)
    (level : Nat) : opensBrace (Line.chars ⟨level, text⟩) = decide (c = '\x7b') := by
  rw [opensBrace, Line.chars, List.getLast?_append, h, Option.some_or]
  simp

namespace Row

variable {r : Row}

theorem Legible.starts_dark (h : r.Legible) : StartsIn (· ≠ ' ') r.text := by
  cases hcloses : r.closes with
  | false => exact startsIn_dark (h.starts hcloses)
  | true =>
    rcases eq_of_closes hcloses with rfl | rfl <;> decide

/-- The character at the end of a row. -/
def lastChar : Row → Char
  | simple _ => ';'
  | leave => '\x7d'
  | _ => '\x7b'

theorem getLast?_text (r : Row) : r.text.toList.getLast? = some r.lastChar := by
  cases r with
  | simple s =>
    cases s with
    | ret value =>
      cases value with
      | none => rfl
      | some value => exact getLast?_append_text (c := ';') ("return " ++ value) (by decide)
    | brk => rfl
    | cont => rfl
    | other text => exact getLast?_append_text (c := ';') text (by decide)
  | ifHead condition => exact getLast?_append_text (c := '\x7b') ("if " ++ condition) (by decide)
  | whileHead condition =>
    exact getLast?_append_text (c := '\x7b') ("while " ++ condition) (by decide)
  | otherwise => rfl
  | leave => rfl

theorem opensBrace_text (r : Row) (level : Nat) :
    opensBrace (Line.chars ⟨level, r.text⟩) = r.opens := by
  rw [opensBrace_chars r.getLast?_text]
  cases r <;> rfl

theorem Legible.closesBrace_text (h : r.Legible) (level : Nat) :
    closesBrace (Line.chars ⟨level, r.text⟩) = r.closes := by
  cases hcloses : r.closes with
  | false => exact closesBrace_chars (h.starts hcloses) level
  | true =>
    rw [closesBrace, unindented_chars h.starts_dark]
    rcases eq_of_closes hcloses with rfl | rfl <;> decide

/-- A line that was written for a row at some level is read as this row. -/
theorem Legible.ofLine_chars (h : r.Legible) (level : Nat) :
    ofLine (Line.chars ⟨level, r.text⟩) = some r := by
  rw [ofLine, unindented_chars h.starts_dark, h.ofChars_text]

end Row

end Shc.C
