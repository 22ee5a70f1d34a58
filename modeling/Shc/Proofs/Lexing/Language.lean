import Mathlib.Data.Nat.Digits.Defs
import Shc.Proofs.Lexing.Token

/-!
# The lexemes of the language

`Spelling cs kind` says, without looking at what comes before or after, that the
characters `cs` are a lexeme and what it means.  The lexer agrees with it at every
place: what it takes for a token is a lexeme, no longer one starts there, and it
reports an error only where there is none to take.
-/

namespace Shc.Lexeme

open Token (Kind)

/-! ### Lexemes -/

/-- What may follow a backslash, with the character that the two mean. -/
def escapes : List (Char × Char) :=
  [('n', '\n'), ('t', '\t'), ('r', '\r'), ('0', '\x00'), ('\\', '\\'), ('\x27', '\x27'),
    ('\x22', '\x22')]

/-- A character of a literal in quote marks `mark`, as it is written and as it is meant. -/
inductive Letter (mark : Char) : List Char → Char → Prop where
  | plain {c : Char} : c ≠ mark → c ≠ '\\' → c ≠ '\n' → Letter mark [c] c
  | escaped {c d : Char} : (c, d) ∈ escapes → Letter mark ['\\', c] d

/-- The characters of a string, as they are written and as they are meant. -/
inductive Letters : List Char → List Char → Prop where
  | nil : Letters [] []
  | cons {cs more value : List Char} {c : Char} :
      Letter '\x22' cs c → Letters more value → Letters (cs ++ more) (c :: value)

/-- The words that are no names. -/
def reserved : List String :=
  "true" :: "false" :: Keyword.all.map Keyword.text

/-- The number that a row of digits is in decimal notation. -/
def decimalValue (ds : List Char) : Nat :=
  Nat.ofDigits 10 (ds.reverse.map fun d => d.toNat - 48)

/-- The characters are a lexeme, which means `kind`. -/
inductive Spelling : List Char → Kind → Prop where
  | symbol (s : Symbol) : Spelling s.text.toList (.symbol s)
  | ampersand : Spelling ['&'] (.symbol .caret)
  | keyword (word : Keyword) : Spelling word.text.toList (.keyword word)
  | yes : Spelling "true".toList (.bool true)
  | no : Spelling "false".toList (.bool false)
  | name {c : Char} {cs : List Char} : isNameStart c = true → (∀ d ∈ cs, isNamePart d = true) →
      String.ofList (c :: cs) ∉ reserved → Spelling (c :: cs) (.ident (String.ofList (c :: cs)))
  | int {ds : List Char} : ds ≠ [] → (∀ d ∈ ds, d.isDigit = true) →
      (1 < ds.length → ds.head? ≠ some '0') → decimalValue ds ≤ 2147483647 →
      Spelling ds (.int (decimalValue ds))
  | char {cs : List Char} {c : Char} : Letter '\x27' cs c →
      Spelling ('\x27' :: (cs ++ ['\x27'])) (.char c)
  | string {cs value : List Char} : Letters cs value →
      Spelling ('\x22' :: (cs ++ ['\x22'])) (.string (String.ofList value))

theorem isTerminal_of_spelling {cs : List Char} {kind : Kind} (h : Spelling cs kind) :
    kind.isTerminal = false := by
  cases h <;> rfl

/-! ### Lexemes stay on their line -/

theorem Letter.ne_lf {mark : Char} {cs : List Char} {c : Char} (h : Letter mark cs c) :
    '\n' ∉ cs := by
  cases h with
  | plain _ _ hlf => simpa using hlf.symm
  | @escaped e d hescape =>
    have he : '\n' ≠ e := by
      rintro rfl
      simp [escapes] at hescape
    simpa using he

theorem Letters.ne_lf {cs value : List Char} (h : Letters cs value) : '\n' ∉ cs := by
  induction h with
  | nil => simp
  | cons hletter _ ih =>
    rw [List.mem_append]
    rintro (hmem | hmem)
    · exact hletter.ne_lf hmem
    · exact ih hmem

/-- A lexeme holds no line feed, and its last character is no carriage return. -/
structure OnLine (cs : List Char) : Prop where
  ne_lf : '\n' ∉ cs
  ne_cr : ∀ c ∈ cs.getLast?, c ≠ '\r'

theorem onLine_of_inLine {cs : List Char} (h : ∀ c ∈ cs, InLine c) : OnLine cs :=
  ⟨fun hmem => (h _ hmem).1 rfl, fun c hc => (h c (List.mem_of_getLast? hc)).2⟩

theorem onLine_quoted {mark : Char} {cs : List Char} (hmark : InLine mark) (h : '\n' ∉ cs) :
    OnLine (mark :: (cs ++ [mark])) := by
  constructor
  · simp only [List.mem_cons, List.mem_append, List.not_mem_nil, or_false]
    rintro (heq | hmem | heq)
    · exact hmark.1 heq.symm
    · exact h hmem
    · exact hmark.1 heq.symm
  · intro c hc
    rw [← List.cons_append, List.getLast?_concat, Option.mem_some_iff] at hc
    exact hc ▸ hmark.2

theorem inLine_symbol (s : Symbol) : ∀ c ∈ s.text.toList, InLine c := by
  cases s <;> exact inLine_of_all (by decide)

theorem inLine_keyword (word : Keyword) : ∀ c ∈ word.text.toList, InLine c := by
  cases word <;> exact inLine_of_all (by decide)

theorem Spelling.onLine {cs : List Char} {kind : Kind} (h : Spelling cs kind) : OnLine cs := by
  cases h with
  | symbol s => exact onLine_of_inLine (inLine_symbol s)
  | ampersand => exact onLine_of_inLine (inLine_of_all (by decide))
  | keyword word => exact onLine_of_inLine (inLine_keyword word)
  | yes => exact onLine_of_inLine (inLine_of_all (by decide))
  | no => exact onLine_of_inLine (inLine_of_all (by decide))
  | name hc hcs _ =>
    refine onLine_of_inLine (List.forall_mem_cons.2 ⟨?_, fun d hd => inLine_of_namePart (hcs d hd)⟩)
    exact inLine_of_namePart (isNamePart_of_nameStart hc)
  | int _ hds _ _ =>
    exact onLine_of_inLine fun d hd => inLine_of_namePart (isNamePart_of_isDigit (hds d hd))
  | char hletter => exact onLine_quoted (by decide) hletter.ne_lf
  | string hletters => exact onLine_quoted (by decide) hletters.ne_lf

theorem Spelling.ne_nil {cs : List Char} {kind : Kind} (h : Spelling cs kind) : cs ≠ [] := by
  cases h with
  | symbol s => cases s <;> decide
  | keyword word => cases word <;> decide
  | int hne _ _ _ => exact hne
  | _ => simp

/-! ### What a first character decides -/

theorem read_nameStart {c : Char} (hc : isNameStart c = true) (rest : List Char) :
    read c rest = word c rest := by
  obtain ⟨hsingle, hdouble, hquote, hmark, -, hdigit⟩ := plain_of_nameStart hc
  have hsymbol : symbol? c rest = none := by
    cases rest <;> simp [symbol?, hsingle, hdouble]
  rw [read, hsymbol]
  simp only [hquote, hmark, hdigit, hc, if_false, if_true, Bool.false_eq_true]

theorem read_digit {c : Char} (hc : c.isDigit = true) (rest : List Char) :
    read c rest = number c rest := by
  obtain ⟨hsingle, hdouble, hquote, hmark, -, -⟩ := plain_of_isDigit hc
  have hsymbol : symbol? c rest = none := by
    cases rest <;> simp [symbol?, hsingle, hdouble]
  rw [read, hsymbol]
  simp only [hquote, hmark, hc, if_false, if_true]

theorem read_mark (rest : List Char) : read '\x27' rest = char rest := by
  cases rest <;> simp [read, symbol?, double?, single?]

/-! ### Every lexeme is read -/

theorem unescape?_eq_some_iff {c d : Char} : unescape? c = some d ↔ (c, d) ∈ escapes := by
  constructor
  · intro h
    unfold unescape? at h
    split at h <;> cases h <;> simp [escapes]
  · simp only [escapes, List.mem_cons, List.not_mem_nil, or_false, Prod.mk.injEq]
    rintro (⟨rfl, rfl⟩ | ⟨rfl, rfl⟩ | ⟨rfl, rfl⟩ | ⟨rfl, rfl⟩ | ⟨rfl, rfl⟩ | ⟨rfl, rfl⟩ |
      ⟨rfl, rfl⟩) <;> rfl

theorem string_letter {cs : List Char} {c : Char} (h : Letter '\x22' cs c) (value : String)
    (width : Nat) (rest : List Char) :
    string value width (cs ++ rest) = string (value.push c) (width + cs.length) rest := by
  cases h with
  | plain hquote hslash _ =>
    rw [List.singleton_append, string]
    · rfl
    · exact hquote
    · exact fun h => absurd h hslash
    · exact fun _ _ h => absurd h hslash
  | escaped hescape =>
    show string value width ('\\' :: _ :: rest) = _
    rw [string, unescape?_eq_some_iff.2 hescape]
    rfl

theorem string_letters {cs meant : List Char} (h : Letters cs meant) (value : String) (width : Nat)
    (rest : List Char) :
    string value width (cs ++ '\x22' :: rest) =
      (.string (value ++ String.ofList meant), width + cs.length + 1) := by
  induction h generalizing value width with
  | nil => simp [string]
  | cons hletter _ ih =>
    rw [List.append_assoc, string_letter hletter, ih, List.length_append]
    congr 1
    · congr 1
      apply String.toList_inj.1
      simp
    · omega

theorem char_letter {cs : List Char} {c : Char} (h : Letter '\x27' cs c) (rest : List Char) :
    char (cs ++ '\x27' :: rest) = (.char c, cs.length + 2) := by
  cases h with
  | plain hmark hslash _ =>
    rw [List.singleton_append, char, closeChar]
    · rfl
    · exact hmark
    · exact fun h => absurd h hslash
    · exact fun _ _ h => absurd h hslash
  | escaped hescape =>
    show char ('\\' :: _ :: '\x27' :: rest) = _
    rw [char, unescape?_eq_some_iff.2 hescape]
    rfl

theorem wordKind_name {text : String} (h : text ∉ reserved) : wordKind text = .ident text := by
  simp only [reserved, List.mem_cons, List.mem_map, not_or, not_exists, not_and] at h
  have hfind : Keyword.all.find? (·.text = text) = none := by
    rw [List.find?_eq_none]
    intro word hmem
    simpa using h.2.2 word hmem
  rw [wordKind, if_neg h.1, if_neg h.2.1, hfind]

/-- Reading digits from the left, as the lexer does, gives their decimal value. -/
theorem value_eq_decimalValue (ds : List Char) : Text.value ds = decimalValue ds := by
  rw [decimalValue, Nat.ofDigits_eq_foldr, List.map_reverse, List.foldr_reverse, List.foldl_map,
    Text.value]
  congr 1
  funext n d
  exact Nat.add_comm ..

theorem numberKind_int {ds : List Char} (hzero : 1 < ds.length → ds.head? ≠ some '0')
    (hmax : decimalValue ds ≤ 2147483647) : numberKind ds = .int (decimalValue ds) := by
  have hle : decimalValue ds ≤ maxInt := hmax
  rw [numberKind, if_neg fun h => hzero h.1 h.2, value_eq_decimalValue, if_pos hle]

/-- How much of the text a lexeme needs to be recognised.  A closed one is the same
    whatever follows; the others end only where the text does not go on with them. -/
inductive Form (c : Char) (cs : List Char) (kind : Kind) : Prop where
  | closed : (∀ more, read c (cs ++ more) = (kind, cs.length + 1)) → Form c cs kind
  | single {s : Symbol} : cs = [] → single? c = some s → kind = .symbol s → Form c cs kind
  | word : isNameStart c = true → (∀ d ∈ cs, isNamePart d = true) →
      kind = wordKind (String.ofList (c :: cs)) → Form c cs kind
  | number : (∀ d ∈ c :: cs, d.isDigit = true) → kind = numberKind (c :: cs) → Form c cs kind

theorem form_symbol (s : Symbol) {c : Char} {cs : List Char} (h : s.text.toList = c :: cs) :
    Form c cs (.symbol s) := by
  have hsplit : s.text.toList.head? = some c ∧ s.text.toList.tail = cs := by simp [h]
  obtain ⟨hhead, rfl⟩ := hsplit
  cases s <;> cases hhead <;>
    first
    | exact .single rfl rfl rfl
    | exact .closed fun _ => rfl

theorem form_word {text : String} (hword : IsWord text.toList) {c : Char} {cs : List Char}
    (h : text.toList = c :: cs) {kind : Kind} (hkind : wordKind text = kind) : Form c cs kind := by
  obtain ⟨d, tail, hcons, hc, -, htail⟩ := hword
  obtain ⟨rfl, rfl⟩ := List.cons.inj (h.symm.trans hcons)
  refine .word hc htail ?_
  rw [← h, String.ofList_toList, hkind]

theorem Spelling.form {c : Char} {cs : List Char} {kind : Kind} (h : Spelling (c :: cs) kind) :
    Form c cs kind := by
  generalize hall : c :: cs = all at h
  cases h with
  | symbol s => exact form_symbol s hall.symm
  | ampersand =>
    obtain ⟨rfl, rfl⟩ := List.cons.inj hall
    exact .single rfl rfl rfl
  | keyword word => exact form_word (isWord_keyword word) hall.symm (wordKind_keyword word)
  | yes =>
    exact form_word ⟨_, _, rfl, by decide, by decide, List.all_eq_true.1 (by decide)⟩ hall.symm
      (by decide)
  | no =>
    exact form_word ⟨_, _, rfl, by decide, by decide, List.all_eq_true.1 (by decide)⟩ hall.symm
      (by decide)
  | name hc hcs hfree =>
    obtain ⟨rfl, rfl⟩ := List.cons.inj hall
    exact .word hc hcs (wordKind_name hfree).symm
  | int _ hds hzero hmax =>
    subst hall
    exact .number hds (numberKind_int hzero hmax).symm
  | char hletter =>
    obtain ⟨rfl, rfl⟩ := List.cons.inj hall
    refine .closed fun more => ?_
    rw [read_mark, List.append_assoc, List.singleton_append, char_letter hletter,
      List.length_append]
    rfl
  | string hletters =>
    obtain ⟨rfl, rfl⟩ := List.cons.inj hall
    refine .closed fun more => ?_
    rw [read_quote, List.append_assoc, List.singleton_append, string_letters hletters,
      List.length_append, String.empty_append, Nat.add_comm 1]
    rfl

/-- A lexeme alone is read as what it means. -/
theorem read_of_spelling {c : Char} {cs : List Char} {kind : Kind} (h : Spelling (c :: cs) kind) :
    read c cs = (kind, cs.length + 1) := by
  cases h.form with
  | closed hread => simpa using hread []
  | single hnil hsingle hkind =>
    subst hnil hkind
    simp [read, symbol?, hsingle]
  | word hc hcs hkind =>
    rw [read_nameStart hc, word, List.takeWhile_eq_self_iff.2 hcs, hkind, List.length_cons]
  | number hds hkind =>
    obtain ⟨hc, hcs⟩ := List.forall_mem_cons.1 hds
    rw [read_digit hc, number, List.takeWhile_eq_self_iff.2 hcs, hkind, List.length_cons]

/-- The lexeme determines what it means. -/
theorem Spelling.unique {cs : List Char} {kind kind' : Kind} (h : Spelling cs kind)
    (h' : Spelling cs kind') : kind' = kind := by
  cases cs with
  | nil => exact absurd rfl h.ne_nil
  | cons c cs =>
    have hread := (read_of_spelling h').symm.trans (read_of_spelling h)
    exact congrArg Prod.fst hread

theorem length_le_takeWhile {p : Char → Bool} {cs : List Char} (h : ∀ c ∈ cs, p c = true)
    (more : List Char) : cs.length ≤ ((cs ++ more).takeWhile p).length := by
  rw [List.takeWhile_append_of_pos h, List.length_append]
  exact Nat.le_add_right ..

/-- In front of anything at least the lexeme is taken. -/
theorem lt_read_of_spelling {c : Char} {cs : List Char} {kind : Kind}
    (h : Spelling (c :: cs) kind) (more : List Char) : cs.length < (read c (cs ++ more)).2 := by
  cases h.form with
  | closed hread => simp [hread]
  | single hnil _ _ =>
    subst hnil
    exact read_snd_pos c _
  | word hc hcs _ =>
    rw [read_nameStart hc]
    exact Nat.succ_le_succ (length_le_takeWhile hcs more)
  | number hds _ =>
    obtain ⟨hc, hcs⟩ := List.forall_mem_cons.1 hds
    rw [read_digit hc]
    exact Nat.succ_le_succ (length_le_takeWhile hcs more)

theorem isTerminal_read_of_single {c : Char} {s : Symbol} (h : single? c = some s)
    (rest : List Char) : (read c rest).1.isTerminal = false := by
  have hsymbol : ∃ found, symbol? c rest = some found := by
    unfold symbol?
    split
    · exact ⟨_, rfl⟩
    · exact ⟨_, by rw [h]; rfl⟩
  obtain ⟨found, hfound⟩ := hsymbol
  rw [read, hfound]
  rfl

/-- Where a lexeme starts a token is found, if it is not a number that is too long. -/
theorem isTerminal_read_of_spelling {c : Char} {cs : List Char} {kind : Kind}
    (h : Spelling (c :: cs) kind) (hdigit : c.isDigit = false) (more : List Char) :
    (read c (cs ++ more)).1.isTerminal = false := by
  cases h.form with
  | closed hread =>
    rw [hread]
    exact isTerminal_of_spelling h
  | single _ hsingle _ => exact isTerminal_read_of_single hsingle _
  | word hc _ _ =>
    rw [read_nameStart hc]
    exact isTerminal_wordKind _
  | number hds _ =>
    rw [hds c List.mem_cons_self] at hdigit
    exact absurd hdigit (by decide)

/-! ### What is read is a lexeme -/

theorem spelling_word {c : Char} {cs : List Char} (hc : isNameStart c = true)
    (hcs : ∀ d ∈ cs, isNamePart d = true) :
    Spelling (c :: cs) (wordKind (String.ofList (c :: cs))) := by
  by_cases hfree : String.ofList (c :: cs) ∈ reserved
  · have hlist : c :: cs = (String.ofList (c :: cs)).toList := String.toList_ofList.symm
    rw [hlist]
    rw [String.ofList_toList]
    generalize String.ofList (c :: cs) = text at hfree
    simp only [reserved, List.mem_cons, List.mem_map] at hfree
    rcases hfree with rfl | rfl | ⟨word, -, rfl⟩
    · exact .yes
    · exact .no
    · rw [wordKind_keyword]
      exact .keyword word
  · rw [wordKind_name hfree]
    exact .name hc hcs hfree

theorem spelling_number {ds : List Char} (hne : ds ≠ []) (hds : ∀ d ∈ ds, d.isDigit = true)
    (h : (numberKind ds).isTerminal = false) : Spelling ds (numberKind ds) := by
  by_cases hzero : 1 < ds.length ∧ ds.head? = some '0'
  · rw [numberKind, if_pos hzero] at h
    cases h
  · by_cases hmax : decimalValue ds ≤ maxInt
    · have hlead : 1 < ds.length → ds.head? ≠ some '0' :=
        fun hlength hhead => hzero ⟨hlength, hhead⟩
      rw [numberKind_int hlead hmax]
      exact .int hne hds hlead hmax
    · rw [numberKind, if_neg hzero, value_eq_decimalValue, if_neg hmax] at h
      cases h

theorem text_of_double {c d : Char} {s : Symbol} (h : double? c d = some s) :
    s.text.toList = [c, d] := by
  unfold double? at h
  split at h <;> cases h <;> rfl

theorem text_of_single {c : Char} {s : Symbol} (h : single? c = some s) :
    s.text.toList = [c] ∨ c = '&' ∧ s = .caret := by
  unfold single? at h
  split at h <;> cases h <;> first | exact .inl rfl | exact .inr ⟨rfl, rfl⟩

theorem spelling_single {c : Char} {s : Symbol} (h : single? c = some s) :
    Spelling [c] (.symbol s) := by
  rcases text_of_single h with htext | ⟨rfl, rfl⟩
  · rw [← htext]
    exact .symbol s
  · exact .ampersand

theorem letters_of_string {value : String} {width : Nat} {cs : List Char}
    (hline : '\n' ∉ cs) (h : (string value width cs).1.isTerminal = false) :
    ∃ body meant tail, cs = body ++ '\x22' :: tail ∧ Letters body meant ∧
      string value width cs =
        (.string (value ++ String.ofList meant), width + body.length + 1) := by
  suffices hletters : ∃ body meant tail, cs = body ++ '\x22' :: tail ∧ Letters body meant by
    obtain ⟨body, meant, tail, rfl, hbody⟩ := hletters
    exact ⟨body, meant, tail, rfl, hbody, string_letters hbody value width tail⟩
  fun_induction string value width cs with
  | case1 => cases h
  | case2 value width tail => exact ⟨[], [], tail, rfl, .nil⟩
  | case3 => cases h
  | case4 value width e rest d hescape ih =>
    simp only [List.mem_cons, not_or] at hline
    obtain ⟨body, meant, tail, rfl, hbody⟩ := ih hline.2.2 h
    exact ⟨_, _, tail, rfl, .cons (.escaped (unescape?_eq_some_iff.1 hescape)) hbody⟩
  | case5 => cases h
  | case6 value width c rest hquote hslash hescape ih =>
    simp only [List.mem_cons, not_or] at hline
    have hback : c ≠ '\\' := by
      intro heq
      cases rest with
      | nil => exact hslash heq rfl
      | cons d rest => exact hescape d rest heq rfl
    obtain ⟨body, meant, tail, rfl, hbody⟩ := ih hline.2 h
    exact ⟨_, _, tail, rfl, .cons (.plain hquote hback (Ne.symm hline.1)) hbody⟩

theorem letter_of_char {cs : List Char} (hline : '\n' ∉ cs) (h : (char cs).1.isTerminal = false) :
    ∃ body meant tail, cs = body ++ '\x27' :: tail ∧ Letter '\x27' body meant ∧
      char cs = (.char meant, body.length + 2) := by
  suffices hletter : ∃ body meant tail, cs = body ++ '\x27' :: tail ∧ Letter '\x27' body meant by
    obtain ⟨body, meant, tail, rfl, hbody⟩ := hletter
    exact ⟨body, meant, tail, rfl, hbody, char_letter hbody tail⟩
  have hclose : ∀ (c : Char) (width : Nat) (rest : List Char),
      (closeChar c width rest).1.isTerminal = false → ∃ tail, rest = '\x27' :: tail := by
    intro c width rest hrest
    unfold closeChar at hrest
    split at hrest
    · exact ⟨_, rfl⟩
    · exact nomatch hrest
  fun_cases char cs with
  | case1 => exact nomatch h
  | case2 => exact nomatch h
  | case3 => exact nomatch h
  | case4 e rest d hescape =>
    rw [char, hescape] at h
    obtain ⟨tail, rfl⟩ := hclose _ _ _ h
    exact ⟨_, _, tail, rfl, .escaped (unescape?_eq_some_iff.1 hescape)⟩
  | case5 e rest hescape =>
    rw [char, hescape] at h
    exact nomatch h
  | case6 c rest hmark hslash hescape =>
    rw [char] at h
    · obtain ⟨tail, rfl⟩ := hclose _ _ _ h
      have hback : c ≠ '\\' := fun heq => hescape _ _ heq rfl
      simp only [List.mem_cons, not_or] at hline
      exact ⟨_, _, tail, rfl, .plain hmark hback (Ne.symm hline.1)⟩
    · exact hmark
    · exact hslash
    · exact hescape

theorem spelling_of_symbol? {c : Char} {rest : List Char} {s : Symbol} {width : Nat}
    (h : symbol? c rest = some (s, width)) :
    ∃ cs tail, rest = cs ++ tail ∧ width = cs.length + 1 ∧ Spelling (c :: cs) (.symbol s) := by
  unfold symbol? at h
  split at h
  · rename_i found hfound
    obtain ⟨rfl, rfl⟩ := Prod.mk.inj (Option.some.inj h)
    cases rest with
    | nil => simp at hfound
    | cons d rest =>
      refine ⟨[d], rest, rfl, rfl, ?_⟩
      rw [← text_of_double hfound]
      exact .symbol found
  · simp only [Option.map_eq_some_iff, Prod.mk.injEq] at h
    obtain ⟨found, hfound, rfl, rfl⟩ := h
    exact ⟨[], rest, rfl, rfl, spelling_single hfound⟩

/-- The token at the front of a line is a lexeme. -/
theorem spelling_of_read {c : Char} {rest : List Char} (hline : '\n' ∉ rest)
    (h : (read c rest).1.isTerminal = false) :
    ∃ cs tail, rest = cs ++ tail ∧ (read c rest).2 = cs.length + 1 ∧
      Spelling (c :: cs) (read c rest).1 := by
  unfold read at h ⊢
  split at h
  · rename_i s width hsymbol
    exact spelling_of_symbol? hsymbol
  · split_ifs at h ⊢ with hquote hmark hdigit hstart
    · obtain ⟨body, meant, tail, rfl, hbody, hread⟩ := letters_of_string hline h
      subst hquote
      refine ⟨body ++ ['\x22'], tail, by simp, ?_, ?_⟩
      · rw [hread, List.length_append, Nat.add_comm 1]
        rfl
      · rw [hread, String.empty_append]
        exact .string hbody
    · obtain ⟨body, meant, tail, rfl, hbody, hread⟩ := letter_of_char hline h
      subst hmark
      refine ⟨body ++ ['\x27'], tail, by simp, ?_, ?_⟩
      · rw [hread, List.length_append]
        rfl
      · rw [hread]
        exact .char hbody
    · refine ⟨rest.takeWhile Char.isDigit, rest.dropWhile Char.isDigit,
        List.takeWhile_append_dropWhile.symm, rfl, ?_⟩
      refine spelling_number (by simp) (List.forall_mem_cons.2 ⟨hdigit, ?_⟩) h
      exact fun d hd => List.mem_takeWhile_imp hd
    · refine ⟨rest.takeWhile isNamePart, rest.dropWhile isNamePart,
        List.takeWhile_append_dropWhile.symm, rfl, ?_⟩
      exact spelling_word hstart fun d hd => List.mem_takeWhile_imp hd
    · exact nomatch h

/-! ### Errors -/

/-- The kinds that report the end of a source and that nothing within a line has. -/
def endsSource : Kind → Bool
  | .eos => true
  | .error .unterminatedComment => true
  | .error (.unreadable _) => true
  | _ => false

theorem endsSource_string (value : String) (width : Nat) (cs : List Char) :
    endsSource (string value width cs).1 = false := by
  fun_induction string value width cs with
  | case4 _ _ _ _ _ _ ih => exact ih
  | case6 _ _ _ _ _ _ _ ih => exact ih
  | _ => rfl

theorem endsSource_char (cs : List Char) : endsSource (char cs).1 = false := by
  have hclose : ∀ (c : Char) (width : Nat) (cs : List Char),
      endsSource (closeChar c width cs).1 = false := by
    intro c width cs
    unfold closeChar
    split <;> rfl
  unfold char
  split
  · rfl
  · rfl
  · rfl
  · split
    · exact hclose _ _ _
    · rfl
  · exact hclose _ _ _

theorem endsSource_of_not_isTerminal {kind : Kind} (h : kind.isTerminal = false) :
    endsSource kind = false := by
  cases kind with
  | eos => cases h
  | error e => cases h
  | _ => rfl

theorem endsSource_read (c : Char) (rest : List Char) : endsSource (read c rest).1 = false := by
  unfold read
  split
  · rfl
  · split_ifs
    · exact endsSource_string _ _ _
    · exact endsSource_char _
    · rw [number, numberKind]
      split_ifs <;> rfl
    · exact endsSource_of_not_isTerminal (isTerminal_wordKind _)
    · rfl

theorem read_ne_eos (c : Char) (rest : List Char) : (read c rest).1 ≠ .eos := by
  intro heos
  have hread := endsSource_read c rest
  rw [heos] at hread
  cases hread

theorem error_of_read {c : Char} {rest : List Char} (h : (read c rest).1.isTerminal = true) :
    ∃ e, (read c rest).1 = .error e := by
  cases hkind : (read c rest).1 with
  | eos => exact absurd hkind (read_ne_eos c rest)
  | error e => exact ⟨e, rfl⟩
  | _ =>
    rw [hkind] at h
    exact nomatch h

/-! ### The lexeme at the front of a text -/

/-- Nothing follows on the line: the text is over or a line end comes next. -/
inductive AtLineEnd : List Char → Prop where
  | stop : AtLineEnd []
  | lf (cs : List Char) : AtLineEnd ('\n' :: cs)
  | crlf (cs : List Char) : AtLineEnd ('\r' :: '\n' :: cs)

/-- The text `lexeme ++ rest` starts with this lexeme and with no longer one, and the
    lexeme can mean nothing but `kind`. -/
structure Longest (lexeme rest : List Char) (kind : Kind) : Prop where
  spelling : Spelling lexeme kind
  unique : ∀ kind', Spelling lexeme kind' → kind' = kind
  longest : ∀ longer kind', longer <+: lexeme ++ rest → Spelling longer kind' →
    longer.length ≤ lexeme.length

/-- The text starts with no lexeme, or with a row of digits that is no number as a whole. -/
inductive Missing : List Char → Prop where
  | lexeme {text : List Char} : text ≠ [] →
      (∀ lexeme kind, lexeme <+: text → ¬ Spelling lexeme kind) → Missing text
  | number {ds rest : List Char} : ds ≠ [] → (∀ d ∈ ds, d.isDigit = true) →
      HeadIn (fun d => !d.isDigit) rest → (∀ kind, ¬ Spelling ds kind) → Missing (ds ++ rest)

/-- A lexeme does not run over the end of its line. -/
theorem Spelling.within_line {lexeme line tail : List Char} {kind : Kind}
    (h : Spelling lexeme kind) (htail : AtLineEnd tail) (hfront : lexeme <+: line ++ tail) :
    lexeme <+: line := by
  rcases Nat.le_total lexeme.length line.length with hle | hle
  · exact List.prefix_of_prefix_length_le hfront (List.prefix_append ..) hle
  · obtain ⟨more, rfl⟩ := List.prefix_of_prefix_length_le (List.prefix_append ..) hfront hle
    have hmore : more <+: tail := (List.prefix_append_right_inj line).1 hfront
    have hlf : '\n' ∉ more := fun hmem => h.onLine.ne_lf (List.mem_append_right _ hmem)
    cases more with
    | nil => simp
    | cons c more =>
      exfalso
      cases htail with
      | stop => simp at hmore
      | lf cs =>
        obtain ⟨rfl, -⟩ := List.cons_prefix_cons.1 hmore
        exact hlf List.mem_cons_self
      | crlf cs =>
        obtain ⟨rfl, hrest⟩ := List.cons_prefix_cons.1 hmore
        cases more with
        | nil => exact h.onLine.ne_cr '\r' (by simp) rfl
        | cons d more =>
          obtain ⟨rfl, -⟩ := List.cons_prefix_cons.1 hrest
          exact hlf (List.mem_cons_of_mem _ List.mem_cons_self)

/-- What is read is the longest lexeme at its place. -/
theorem longest_of_read {c : Char} {rest tail : List Char} (hline : '\n' ∉ rest)
    (htail : AtLineEnd tail) (h : (read c rest).1.isTerminal = false) :
    ∃ cs more, rest = cs ++ more ∧ (read c rest).2 = cs.length + 1 ∧
      Longest (c :: cs) (more ++ tail) (read c rest).1 := by
  obtain ⟨cs, more, hrest, hwidth, hspelling⟩ := spelling_of_read hline h
  refine ⟨cs, more, hrest, hwidth, hspelling, fun kind' h' => hspelling.unique h', ?_⟩
  intro longer kind' hfront hlonger
  rw [List.cons_append, ← List.append_assoc, ← hrest, ← List.cons_append] at hfront
  cases longer with
  | nil => exact Nat.zero_le _
  | cons d ds =>
    obtain ⟨rfl, more', rfl⟩ := List.cons_prefix_cons.1 (hlonger.within_line htail hfront)
    have hlt := lt_read_of_spelling hlonger more'
    rw [hwidth] at hlt
    simpa using Nat.le_of_lt_succ hlt

theorem headIn_of_atLineEnd {p : Char → Bool} {tail : List Char} (h : AtLineEnd tail)
    (hlf : p '\n' = true) (hcr : p '\r' = true) : HeadIn p tail := by
  cases h with
  | stop => exact headIn_nil
  | lf cs => exact headIn_cons hlf _
  | crlf cs => exact headIn_cons hcr _

theorem headIn_dropWhile (p : Char → Bool) {cs tail : List Char}
    (h : HeadIn (fun c => !p c) tail) : HeadIn (fun c => !p c) (cs.dropWhile p ++ tail) := by
  induction cs with
  | nil => exact h
  | cons c cs ih =>
    by_cases hc : p c = true
    · rwa [List.dropWhile_cons_of_pos hc]
    · rw [List.dropWhile_cons_of_neg hc]
      exact headIn_cons (by simpa using hc) _

/-- Where an error is found there is no lexeme to take. -/
theorem missing_of_read {c : Char} {rest tail : List Char} (htail : AtLineEnd tail)
    (h : (read c rest).1.isTerminal = true) : Missing (c :: rest ++ tail) := by
  cases hdigit : c.isDigit with
  | false =>
    refine .lexeme (by simp) ?_
    intro lexeme kind hfront hspelling
    cases lexeme with
    | nil => exact hspelling.ne_nil rfl
    | cons d ds =>
      obtain ⟨rfl, more, rfl⟩ := List.cons_prefix_cons.1 (hspelling.within_line htail hfront)
      rw [isTerminal_read_of_spelling hspelling hdigit more] at h
      exact absurd h (by decide)
  | true =>
    have hsplit : c :: rest ++ tail =
        (c :: rest.takeWhile Char.isDigit) ++ (rest.dropWhile Char.isDigit ++ tail) := by
      rw [List.cons_append, List.cons_append, ← List.append_assoc,
        List.takeWhile_append_dropWhile]
    have hds : ∀ d ∈ rest.takeWhile Char.isDigit, d.isDigit = true :=
      fun d hd => List.mem_takeWhile_imp hd
    rw [hsplit]
    refine .number (by simp) (List.forall_mem_cons.2 ⟨hdigit, hds⟩) ?_ ?_
    · exact headIn_dropWhile _ (headIn_of_atLineEnd htail (by decide) (by decide))
    · intro kind hspelling
      have hread := congrArg Prod.fst (read_of_spelling hspelling)
      rw [read_digit hdigit, number, List.takeWhile_eq_self_iff.2 hds] at hread
      have hkind : numberKind (c :: rest.takeWhile Char.isDigit) = kind := hread
      rw [read_digit hdigit, number, hkind, isTerminal_of_spelling hspelling] at h
      exact absurd h (by decide)

end Shc.Lexeme
