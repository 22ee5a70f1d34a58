import Shc.Proofs.Lexing.Language

/-!
# A carriage return at the end

A carriage return in front of a line feed belongs to the line end.  At the end of a text
without a line feed it is the last character of its line, and a blank.  It is then part
of no lexeme, and the tokens in front of it are the same with and without it.
-/

namespace Shc

open Token (Kind)

namespace Text

/-- The rest of a line and the lines to come, with and without a carriage return at the
    very end. -/
inductive Trailing : List Char → List (List Char) → List Char → List (List Char) → Prop where
  | last (line : List Char) : Trailing (line ++ ['\r']) [] line []
  | cons (rest : List Char) {next next' : List Char} {later later' : List (List Char)} :
      Trailing next later next' later' → Trailing rest (next :: later) rest (next' :: later')

end Text

/-! ### Lexemes in front of a carriage return -/

namespace Lexeme

theorem symbol?_trailing (c : Char) (rest : List Char) :
    symbol? c (rest ++ ['\r']) = symbol? c rest := by
  cases rest with
  | nil =>
    have hdouble : double? c '\r' = none := by
      unfold double?
      split <;> simp_all
    simp [symbol?, hdouble]
  | cons d rest => rfl

theorem string_trailing (value : String) (width : Nat) (cs : List Char)
    (h : (string value width (cs ++ ['\r'])).1.isTerminal = false) :
    string value width (cs ++ ['\r']) = string value width cs := by
  fun_induction string value width cs with
  | case1 => simp [string, Kind.isTerminal] at h
  | case2 => simp [string]
  | case3 => simp [string, unescape?, Kind.isTerminal] at h
  | case4 value width c rest d hescape ih =>
    simp only [List.cons_append, string, hescape] at h ⊢
    exact ih h
  | case5 value width c rest hescape => simp [string, hescape]
  | case6 value width c rest hquote hlast hescaped ih =>
    have hslash : c ≠ '\\' := by
      intro hc
      cases rest with
      | nil => exact hlast hc rfl
      | cons d rest => exact hescaped d rest hc rfl
    have hstep : string value width (c :: (rest ++ ['\r'])) =
        string (value.push c) (width + 1) (rest ++ ['\r']) := by
      rw [string]
      · exact hquote
      · exact fun hc _ => hslash hc
      · exact fun _ _ hc _ => hslash hc
    rw [List.cons_append, hstep] at h ⊢
    exact ih h

theorem closeChar_trailing (value : Char) (width : Nat) (cs : List Char) :
    closeChar value width (cs ++ ['\r']) = closeChar value width cs := by
  cases cs with
  | nil => rfl
  | cons c cs =>
    by_cases hc : c = '\x27'
    · rw [hc]
      rfl
    · simp [closeChar, hc]

theorem char_trailing (cs : List Char) (h : (char (cs ++ ['\r'])).1.isTerminal = false) :
    char (cs ++ ['\r']) = char cs := by
  fun_cases char cs with
  | case1 => simp [char, closeChar, Kind.isTerminal] at h
  | case2 => simp [char]
  | case3 => simp [char, unescape?, Kind.isTerminal] at h
  | case4 c rest d hescape => simp [char, hescape, closeChar_trailing]
  | case5 c rest hescape => simp [char, hescape]
  | case6 c rest hmark hlast hescaped =>
    have hslash : c ≠ '\\' := by
      intro hc
      cases rest with
      | nil => exact hlast hc rfl
      | cons d rest => exact hescaped d rest hc rfl
    rw [List.cons_append, char]
    · exact closeChar_trailing c 2 rest
    · exact hmark
    · exact fun hc _ => hslash hc
    · exact fun _ _ hc _ => hslash hc

theorem takeWhile_trailing {p : Char → Bool} (h : p '\r' = false) (cs : List Char) :
    (cs ++ ['\r']).takeWhile p = cs.takeWhile p := by
  induction cs with
  | nil => simp [h]
  | cons c cs ih =>
    rw [List.cons_append, List.takeWhile_cons, List.takeWhile_cons, ih]

/-- A carriage return at the end of the line belongs to no lexeme. -/
theorem read_trailing (c : Char) (rest : List Char)
    (h : (read c (rest ++ ['\r'])).1.isTerminal = false) :
    read c (rest ++ ['\r']) = read c rest := by
  have hdigit : ('\r' : Char).isDigit = false := by decide
  have hpart : isNamePart '\r' = false := by decide
  unfold read at h ⊢
  rw [symbol?_trailing] at h ⊢
  cases hsymbol : symbol? c rest with
  | some found => rfl
  | none =>
    rw [hsymbol] at h
    dsimp only at h ⊢
    by_cases hquote : c = '\x22'
    · rw [if_pos hquote] at h
      rw [if_pos hquote, if_pos hquote]
      exact string_trailing "" 1 rest h
    · rw [if_neg hquote] at h
      rw [if_neg hquote, if_neg hquote]
      by_cases hmark : c = '\x27'
      · rw [if_pos hmark] at h
        rw [if_pos hmark, if_pos hmark]
        exact char_trailing rest h
      · rw [if_neg hmark, if_neg hmark, number, number, word, word, takeWhile_trailing hdigit,
          takeWhile_trailing hpart]

/-! ### Lexemes end on their line -/

theorem string_snd_le (value : String) (width : Nat) (cs : List Char) :
    (string value width cs).2 ≤ width + cs.length := by
  fun_induction string value width cs with
  | case1 => simp
  | case2 => simp
  | case3 => simp
  | case4 value width c rest d hescape ih =>
    simp only [List.length_cons]
    omega
  | case5 => simp
  | case6 value width c rest hquote hlast hescaped ih =>
    simp only [List.length_cons]
    omega

theorem closeChar_snd_le (value : Char) (width : Nat) (cs : List Char) :
    (closeChar value width cs).2 ≤ width + cs.length := by
  unfold closeChar
  split
  · simp
  · simp

theorem char_snd_le (cs : List Char) : (char cs).2 ≤ cs.length + 1 := by
  fun_cases char cs with
  | case1 => simp
  | case2 => simp
  | case3 => simp
  | case4 c rest d hescape =>
    have hle := closeChar_snd_le d 3 rest
    simp only [List.length_cons]
    omega
  | case5 => simp
  | case6 c rest =>
    have hle := closeChar_snd_le c 2 rest
    simp only [List.length_cons]
    omega

theorem symbol?_snd_le {c : Char} {rest : List Char} {symbol : Symbol} {width : Nat}
    (h : symbol? c rest = some (symbol, width)) : width ≤ rest.length + 1 := by
  cases rest with
  | nil =>
    obtain ⟨s, -, heq⟩ := Option.map_eq_some_iff.1 h
    obtain ⟨-, rfl⟩ := Prod.mk.inj heq
    exact Nat.le_refl _
  | cons d rest =>
    unfold symbol? at h
    split at h
    · obtain ⟨-, rfl⟩ := Prod.mk.inj (Option.some.inj h)
      simp
    · obtain ⟨s, -, heq⟩ := Option.map_eq_some_iff.1 h
      obtain ⟨-, rfl⟩ := Prod.mk.inj heq
      simp

/-- A token takes no more characters than there are. -/
theorem read_snd_le (c : Char) (rest : List Char) : (read c rest).2 ≤ rest.length + 1 := by
  unfold read
  split
  · rename_i symbol width hsymbol
    exact symbol?_snd_le hsymbol
  · split_ifs
    · have hle := string_snd_le "" 1 rest
      omega
    · exact char_snd_le rest
    · simpa [number] using (List.takeWhile_prefix _).length_le
    · simpa [word] using (List.takeWhile_prefix _).length_le
    · simp

end Lexeme

/-! ### Gaps in front of a carriage return -/

namespace Gap

/-- A place in plain space where no comment starts. -/
theorem cross_space {c : Char} {rest : List Char}
    (h : c = '/' → rest.head? ≠ some '/' ∧ rest.head? ≠ some '*') (line column : Nat) :
    cross line .space column (c :: rest) =
      if Text.isBlank c then cross line .space (column + 1) rest else .token column c rest := by
  rw [cross]
  · rintro rest' hc rfl
    exact (h hc).1 rfl
  · rintro rest' hc rfl
    exact (h hc).2 rfl

/-- A carriage return at the end of the line goes with the gap or follows the token. -/
theorem cross_trailing (line : Nat) (gap : Gap) (column : Nat) (cs : List Char) :
    cross line gap column (cs ++ ['\r']) =
      match cross line gap column cs with
      | .token column' c rest => .token column' c (rest ++ ['\r'])
      | .lineEnd gap' => .lineEnd gap' := by
  have hhead : ∀ (rest : List Char) (d : Char), d ≠ '\r' → rest.head? ≠ some d →
      (rest ++ ['\r']).head? ≠ some d := by
    intro rest d hd hrest
    cases rest with
    | nil => simpa using hd.symm
    | cons e rest => exact hrest
  fun_induction cross line gap column cs with
  | case1 gap column =>
    cases gap with
    | space => rfl
    | comment start => rfl
  | case2 => rfl
  | case3 column rest ih => exact ih
  | case4 column c rest hline hblock hblank ih =>
    have hopens : c = '/' →
        (rest ++ ['\r']).head? ≠ some '/' ∧ (rest ++ ['\r']).head? ≠ some '*' := by
      rintro rfl
      exact absurd hblank (by decide)
    rw [List.cons_append, cross_space hopens, if_pos hblank]
    exact ih
  | case5 column c rest hline hblock hblank =>
    have hopens : c = '/' →
        (rest ++ ['\r']).head? ≠ some '/' ∧ (rest ++ ['\r']).head? ≠ some '*' := by
      intro hc
      refine ⟨hhead rest _ (by decide) ?_, hhead rest _ (by decide) ?_⟩
      · intro hslash
        obtain ⟨rest', rfl⟩ := List.head?_eq_some_iff.1 hslash
        exact hline rest' hc rfl
      · intro hstar
        obtain ⟨rest', rfl⟩ := List.head?_eq_some_iff.1 hstar
        exact hblock rest' hc rfl
    rw [List.cons_append, cross_space hopens, if_neg hblank]
  | case6 start column rest ih => exact ih
  | case7 start column c rest hopen ih =>
    rw [List.cons_append, cross]
    · exact ih
    · intro rest' hc hslash
      cases rest with
      | nil => exact absurd (List.cons.inj hslash).1 (by decide)
      | cons d rest =>
        obtain ⟨rfl, -⟩ := List.cons.inj hslash
        exact hopen rest hc rfl

end Gap

/-! ### The last token -/

namespace Cursor

/-- The first token from a cursor on, and what comes behind it. -/
theorem of_tokens_eq_cons {c : Cursor} {t : Token} {ts : List Token} (h : c.tokens = t :: ts) :
    t = c.next.1 ∧ (t.isTerminal = false → ts = c.next.2.tokens) ∧
      (t.isTerminal = true → ts = []) := by
  rw [tokens] at h
  by_cases hterminal : c.next.1.isTerminal = true
  · rw [if_pos hterminal] at h
    obtain ⟨rfl, rfl⟩ := List.cons.inj h
    exact ⟨rfl, fun hproper => absurd hterminal (by simp [hproper]), fun _ => rfl⟩
  · rw [if_neg hterminal] at h
    obtain ⟨rfl, rfl⟩ := List.cons.inj h
    exact ⟨rfl, fun _ => rfl, fun hlast => absurd hlast hterminal⟩

theorem tokens_of_proper {c : Cursor} (h : c.next.1.isTerminal = false) :
    c.tokens = c.next.1 :: c.next.2.tokens := by
  rw [tokens, if_neg (by simp [h])]

theorem tokens_of_terminal {c : Cursor} (h : c.next.1.isTerminal = true) :
    c.tokens = [c.next.1] := by
  rw [tokens, if_pos h]

theorem take_fst_ne_eos (c : Cursor) (head : Char) (tail : List Char) :
    (c.take head tail).1.kind ≠ .eos :=
  Lexeme.read_ne_eos head tail

/-- In the tokens of a source that ends well, one that is followed by another is no
    terminal one. -/
theorem step_of_tokens {c : Cursor} {t : Token} {ts : List Token} {span : Span}
    (h : c.tokens = (t :: ts) ++ [⟨.eos, span⟩]) :
    c.next.1 = t ∧ t.isTerminal = false ∧ c.next.2.tokens = ts ++ [⟨.eos, span⟩] := by
  obtain ⟨hfirst, hproper, hterminal⟩ := of_tokens_eq_cons h
  cases ht : t.isTerminal with
  | true => exact absurd (hterminal ht) (by simp)
  | false => exact ⟨hfirst.symm, rfl, (hproper ht).symm⟩

theorem eos_of_tokens {c : Cursor} {span : Span} (h : c.tokens = [⟨.eos, span⟩]) :
    c.next.1.kind = .eos := by
  rw [← (of_tokens_eq_cons h).1]

/-! ### A carriage return at the very end -/

/-- Two cursors at the same place of two texts, of which the first one has one more
    carriage return at the very end. -/
structure Trails (c c' : Cursor) : Prop where
  line_eq : c.line = c'.line
  column_eq : c.column = c'.column
  lines : Text.Trailing c.rest c.later c'.rest c'.later
  failure_eq : c.failure = none
  failure_eq' : c'.failure = none

/-- How the next tokens of two such cursors compare. -/
def AlsoTrails (x x' : Token × Cursor) : Prop :=
  (x.1.isTerminal = false → x'.1 = x.1 ∧ Trails x.2 x'.2) ∧ (x.1.kind = .eos → x'.1.kind = .eos)

theorem alsoTrails_take {line column : Nat} {head : Char} {tail tail' : List Char}
    {later later' : List (List Char)}
    (hread : (Lexeme.read head tail).1.isTerminal = false →
      Lexeme.read head tail' = Lexeme.read head tail ∧
      Text.Trailing ((head :: tail).drop (Lexeme.read head tail).2) later
        ((head :: tail').drop (Lexeme.read head tail).2) later') :
    AlsoTrails (take ⟨line, column, head :: tail, later, none⟩ head tail)
      (take ⟨line, column, head :: tail', later', none⟩ head tail') := by
  constructor
  · intro hproper
    obtain ⟨heq, htrailing⟩ := hread hproper
    refine ⟨?_, ?_⟩
    · simp only [take, heq, skip, loc]
    · simp only [take, heq, skip]
      exact ⟨rfl, rfl, htrailing, rfl, rfl⟩
  · intro heos
    exact absurd heos (take_fst_ne_eos _ head tail)

theorem alsoTrails_terminal {c c' : Cursor} (h : c.failure = none) (h' : c'.failure = none)
    (gap : Gap) : AlsoTrails (c.terminal gap, c) (c'.terminal gap, c') := by
  constructor
  · intro hproper
    rw [isTerminal_terminal] at hproper
    exact nomatch hproper
  · intro heos
    cases gap with
    | space => simp [terminal, h']
    | comment start => simp [terminal, h] at heos

theorem alsoTrails_nextIn {rest rest' : List Char} {later later' : List (List Char)}
    (h : Text.Trailing rest later rest' later') (line column : Nat) (gap : Gap) :
    AlsoTrails (nextIn none later line column rest gap)
      (nextIn none later' line column rest' gap) := by
  induction h generalizing line column gap with
  | last rest =>
    rw [nextIn, nextIn, Gap.cross_trailing]
    cases Gap.cross line gap column rest with
    | lineEnd gap' => exact alsoTrails_terminal rfl rfl gap'
    | token column' head tail =>
      refine alsoTrails_take fun hproper => ?_
      have hread := Lexeme.read_trailing head tail hproper
      have hle := Lexeme.read_snd_le head tail
      refine ⟨hread.symm, ?_⟩
      rw [hread, ← List.cons_append, List.drop_append_of_le_length (by simpa using hle)]
      exact .last _
  | @cons rest next next' later later' hlater ih =>
    rw [nextIn, nextIn]
    cases Gap.cross line gap column rest with
    | lineEnd gap' => exact ih (line + 1) 0 gap'
    | token column' head tail =>
      exact alsoTrails_take fun _ => ⟨rfl, .cons _ hlater⟩

theorem Trails.next {c c' : Cursor} (h : Trails c c') : AlsoTrails c.next c'.next := by
  have hnext := alsoTrails_nextIn h.lines c.line c.column .space
  rw [Cursor.next, Cursor.next, h.failure_eq, h.failure_eq', ← h.line_eq, ← h.column_eq]
  exact hnext

/-- A carriage return at the very end changes nothing but the place of the end. -/
theorem Trails.tokens {c c' : Cursor} (h : Trails c c') {ts : List Token} {span : Span}
    (htokens : c.tokens = ts ++ [⟨.eos, span⟩]) :
    ∃ span', c'.tokens = ts ++ [⟨.eos, span'⟩] := by
  induction ts generalizing c c' with
  | nil =>
    have hkind := h.next.2 (eos_of_tokens htokens)
    refine ⟨c'.next.1.span, ?_⟩
    rw [tokens_of_terminal (by rw [Token.isTerminal, hkind]; rfl), List.nil_append, ← hkind]
  | cons t ts ih =>
    obtain ⟨hfirst, hproper, hrest⟩ := step_of_tokens htokens
    obtain ⟨heq, htrails⟩ := h.next.1 (by rw [hfirst, hproper])
    obtain ⟨span', hrest'⟩ := ih htrails hrest
    refine ⟨span', ?_⟩
    rw [tokens_of_proper (by rw [heq, hfirst, hproper]), heq, hfirst, hrest']
    rfl

end Cursor

end Shc
