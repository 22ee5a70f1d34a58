import Shc.Proofs.Relocate.Output
import Shc.Proofs.RoundTrip.Program

/-!
# Layout

Where the tokens of a source stand shows in the places that a program or an error
carries and nowhere else.  Two sources with the same kinds of tokens are therefore
compiled alike.  The printed form of a program is such a second source for it: it is
read back as the program up to places, so the check that it reads back never fails,
and compiling it gives the same texts again.
-/

namespace Shc

/-- Both succeed with related values, or both fail with related errors. -/
def Alike {ε α : Type} (errors : ε → ε → Prop) (values : α → α → Prop) :
    Except ε α → Except ε α → Prop
  | .ok a, .ok b => values a b
  | .error e, .error e' => errors e e'
  | _, _ => False

theorem alike_of_erase_eq {ε α : Type} [Relocate ε] [Relocate α] {errors : ε → ε → Prop}
    {values : α → α → Prop} (herrors : ∀ e e', erase e = erase e' → errors e e')
    (hvalues : ∀ a b, erase a = erase b → values a b) {x y : Except ε α}
    (h : erase x = erase y) : Alike errors values x y := by
  cases x with
  | ok a =>
    cases y with
    | ok b => exact hvalues a b (Except.ok.inj h)
    | error e => exact absurd h (by simp [erase, relocate])
  | error e =>
    cases y with
    | ok b => exact absurd h (by simp [erase, relocate])
    | error e' => exact herrors e e' (Except.error.inj h)

/-! ### Parsing -/

namespace Reading

/-- Read items from the first token on, which may be a lexical error. -/
def fromStart (s : Stream) : Reading :=
  match Parser.checked s with
  | .error e s' => ⟨[], some e, s'⟩
  | .ok _ s' => ofStream s'

theorem fromStart_relocate (f : Location → Location) (s : Stream) :
    fromStart (relocate f s) = relocate f (fromStart s) := by
  rw [fromStart, fromStart, Parser.moves_checked s]
  cases Parser.checked s with
  | error e s' => rfl
  | ok u s' => exact ofStream_relocate f s'

theorem result_relocate (f : Location → Location) (r : Reading) :
    (relocate f r).result = relocate f r.result := by
  obtain ⟨items, error, rest⟩ := r
  cases error with
  | some e => rfl
  | none => exact congrArg Except.ok (Program.relocate_ofItems f items).symm

end Reading

theorem Program.erase_parse_eq {source source' : Source}
    (h : source.tokens.map Token.kind = source'.tokens.map Token.kind) :
    erase (parse source) = erase (parse source') := by
  have hparse : ∀ source : Source,
      erase (parse source) = (Reading.fromStart (erase (Stream.ofSource source))).result := by
    intro source
    rw [erase, erase, Reading.fromStart_relocate, Reading.result_relocate]
    rfl
  have hstream : erase (Stream.ofSource source) = erase (Stream.ofSource source') := by
    apply Stream.eq_of_toList_eq
    rw [erase, erase, Stream.toList_relocate, Stream.toList_relocate, Stream.toList_ofSource,
      Stream.toList_ofSource]
    exact erase_tokens_eq h
  rw [hparse, hparse, hstream]

/-! ### Compiling -/

theorem erase_compileText (text : String) (options : Options) :
    erase (compileText text options) =
      match erase (Program.parse (Source.ofString text)) with
      | .ok p => p.compile options
      | .error e => .error (.parse e) := by
  rw [compileText]
  cases Program.parse (Source.ofString text) with
  | error e => rfl
  | ok p => exact (p.compile_relocate _ options).symm

theorem Compilation.texts_eq_of_erase_eq {c c' : Compilation} (h : erase c = erase c') :
    c.cSource = c'.cSource ∧ c.program.text = c'.program.text ∧
      c.program.outline = c'.program.outline := by
  have hprogram : erase c.program = erase c'.program := congrArg Compilation.program h
  have hsource : (erase c).cSource = (erase c').cSource := congrArg Compilation.cSource h
  refine ⟨hsource, ?_, ?_⟩
  · have htext := congrArg Program.text hprogram
    rwa [erase, erase, Program.text_relocate, Program.text_relocate] at htext
  · have houtline := congrArg Program.outline hprogram
    rwa [erase, erase, Program.outline_relocate, Program.outline_relocate] at houtline

/-- Two sources with the same kinds of tokens are parsed to programs that differ in
    places only, or are refused for the same reason.  With any options they are compiled
    to the same C text, printed form and outline, or to errors that differ in places
    only. -/
theorem alike_of_kinds_eq {text text' : String}
    (h : (Source.ofString text).tokens.map Token.kind =
      (Source.ofString text').tokens.map Token.kind) :
    Alike (fun e e' => e.kind = e'.kind) (fun p p' => erase p = erase p')
        (Program.parse (Source.ofString text)) (Program.parse (Source.ofString text')) ∧
      ∀ options,
        Alike (fun e e' => erase e = erase e')
          (fun c c' => c.cSource = c'.cSource ∧ c.program.text = c'.program.text ∧
            c.program.outline = c'.program.outline)
          (compileText text options) (compileText text' options) := by
  have hparse := Program.erase_parse_eq h
  constructor
  · refine alike_of_erase_eq ?_ (fun p p' hp => hp) hparse
    intro e e' he
    have hkind : (erase e).kind = (erase e').kind := congrArg ParseError.kind he
    exact hkind
  · intro options
    refine alike_of_erase_eq (fun e e' he => he) ?_ ?_
    · intro c c' hc
      exact Compilation.texts_eq_of_erase_eq hc
    · rw [erase_compileText, erase_compileText, hparse]

/-- The crowded source with blanks, line breaks and comments between its tokens. -/
def Crowded.spread : String :=
  "fun f /* f */ ( n : int ) : int \x7b\n  while (n < 2) \x7b // twice\r\n" ++
    "    if ( f(\")\x7b\\n\") )\n\tn = 1;\n    else\n\treturn n;\n  \x7d\n  return 3; \x7d\n"

theorem alike_of_kinds_eq_sample :
    (Source.ofString Crowded.text).tokens.map Token.kind =
        (Source.ofString Crowded.spread).tokens.map Token.kind ∧
      (∃ p, Program.parse (Source.ofString Crowded.spread) = .ok p ∧
        erase (Program.mk [] [Crowded.f]) = erase p) ∧
      ∀ options,
        Alike (fun e e' => erase e = erase e')
          (fun c c' => c.cSource = c'.cSource ∧ c.program.text = c'.program.text ∧
            c.program.outline = c'.program.outline)
          (compileText Crowded.text options) (compileText Crowded.spread options) := by
  have hkinds : (Source.ofString Crowded.text).tokens.map Token.kind =
      (Source.ofString Crowded.spread).tokens.map Token.kind := by decide +kernel
  obtain ⟨hparse, hcompile⟩ := alike_of_kinds_eq hkinds
  refine ⟨hkinds, ?_, hcompile⟩
  have hfirst : Program.parse (Source.ofString Crowded.text) = .ok ⟨[], [Crowded.f]⟩ :=
    Crowded.parse_source
  rw [hfirst] at hparse
  cases hsecond : Program.parse (Source.ofString Crowded.spread) with
  | error e =>
    rw [hsecond] at hparse
    exact hparse.elim
  | ok p =>
    rw [hsecond] at hparse
    exact ⟨p, rfl, hparse⟩

/-! ### Formatting -/

namespace Program

/-- An accepted program has a derivation whose tokens its text spells. -/
theorem exists_spelled_derivation {source : Source} {p : Program} (h : parse source = .ok p) :
    ∃ tree : Grammar.Program,
      (Source.ofString p.text).tokens.map Token.kind = tree.tokens.map Token.kind ++ [.eos] ∧
        tree.Valid ∧ tree.image = p := by
  obtain ⟨tree, span, htokens, hvalid, rfl⟩ := exists_derivation h
  have hlexical := Token.allLexical_of_source htokens
  refine ⟨Grammar.Program.normal tree, (Grammar.Program.spellsLines hlexical).kinds_eq, ?_, ?_⟩
  · exact Grammar.Program.valid_normal hvalid
  · exact Grammar.Program.image_normal tree

theorem checkRoundTrip_of_parse {source : Source} {p : Program} (h : parse source = .ok p) :
    p.checkRoundTrip = .ok () := by
  obtain ⟨tree, hkinds, hvalid, rfl⟩ := exists_spelled_derivation h
  obtain ⟨q, hparse, herase⟩ := parse_of_kinds hkinds hvalid
  have houtline := congrArg outline herase
  rw [erase, erase, outline_relocate, outline_relocate] at houtline
  have hreread : tree.image.outline = tree.image.reread := by
    rw [reread, hparse]
    exact houtline.symm
  rw [checkRoundTrip, if_pos hreread]

/-- What compiling comes to where the printed form reads back. -/
theorem compile_of_parse {source : Source} {p : Program} (h : parse source = .ok p)
    (options : Options) :
    p.compile options =
      match (p.selected options).cText with
      | .ok text => .ok ⟨p, text⟩
      | .error e => .error (.c e) := by
  rw [compile, checkRoundTrip_of_parse h]
  by_cases hcheck : options.roundTrip = true
  · simp only [if_pos hcheck]
    rfl
  · simp only [if_neg hcheck]
    rfl

theorem erase_compileText_text {source : Source} {p : Program} (h : parse source = .ok p)
    (options : Options) : erase (compileText p.text options) = erase (p.compile options) := by
  obtain ⟨tree, hkinds, hvalid, rfl⟩ := exists_spelled_derivation h
  obtain ⟨q, hparse, herase⟩ := parse_of_kinds hkinds hvalid
  have hok : erase (parse (Source.ofString tree.image.text)) = .ok (erase tree.image) := by
    rw [hparse, ← herase]
    rfl
  rw [erase_compileText, hok]
  exact tree.image.compile_relocate _ options

end Program

/-- A compilation is the same whether or not the printed form is read back as a check,
    and never fails for it.  If it succeeds, the printed form compiles too, to the same C
    text, printed form and outline. -/
theorem compileText_formatted (text : String) (options : Options) :
    compileText text { options with roundTrip := true } =
        compileText text { options with roundTrip := false } ∧
      (∀ expected actual, compileText text options ≠ .error (.roundTrip expected actual)) ∧
      ∀ c, compileText text options = .ok c →
        ∃ c', compileText c.program.text options = .ok c' ∧ c'.cSource = c.cSource ∧
          c'.program.text = c.program.text ∧ c'.program.outline = c.program.outline := by
  cases hparse : Program.parse (Source.ofString text) with
  | error e =>
    have herror : ∀ options, compileText text options = .error (.parse e) := by
      intro options
      rw [compileText, hparse]
    refine ⟨by rw [herror, herror], ?_, ?_⟩
    · intro expected actual h
      rw [herror] at h
      exact absurd h (by simp)
    · intro c h
      rw [herror] at h
      exact absurd h (by simp)
  | ok p =>
    have hcompile : ∀ options, compileText text options = p.compile options := by
      intro options
      rw [compileText, hparse]
    refine ⟨?_, ?_, ?_⟩
    · rw [hcompile, hcompile, Program.compile_of_parse hparse, Program.compile_of_parse hparse]
      rfl
    · intro expected actual h
      rw [hcompile, Program.compile_of_parse hparse] at h
      cases hc : (p.selected options).cText <;> rw [hc] at h <;> simp at h
    · intro c h
      rw [hcompile] at h
      have hagain := Program.erase_compileText_text hparse options
      have hp : c.program = p := (Program.of_compile_eq_ok h).1
      rw [hp]
      cases hc : compileText p.text options with
      | error e =>
        rw [h, hc] at hagain
        exact absurd hagain (by simp [erase, relocate])
      | ok c' =>
        rw [h, hc] at hagain
        refine ⟨c', rfl, ?_⟩
        rw [← hp]
        exact Compilation.texts_eq_of_erase_eq (Except.ok.inj hagain)

namespace Crowded

/-- The crowded source in its printed form. -/
def printed : String :=
  "fun f(n : int) : int \x7b\n    while (n < 2) \x7b\n        if (f(\")\x7b\\n\")) \x7b\n" ++
    "            n = 1;\n        \x7d else \x7b\n            return n;\n        \x7d\n    \x7d\n" ++
    "    return 3;\n\x7d\n"

/-- The crowded source in C. -/
def cText : String :=
  "#include <stdio.h>\n#include <stdlib.h>\n#include <stdint.h>\n\nuint64_t f(uint64_t n);\n\n" ++
    "uint64_t f(uint64_t n) \x7b\n    while (n < 2) \x7b\n        if (f(\")\x7b\\n\")) \x7b\n" ++
    "            n = 1;\n        \x7d else \x7b\n            return n;\n        \x7d\n    \x7d\n" ++
    "    return 3;\n\x7d\n"

theorem text_f : Program.text ⟨[], [f]⟩ = printed := by
  decide +kernel

theorem compileText_text :
    compileText text ⟨true, true, none, false⟩ = .ok ⟨⟨[], [f]⟩, cText⟩ := by
  have hc : Program.cText ⟨[], [f]⟩ = .ok cText := by decide +kernel
  have hparse : Program.parse (Source.ofString text) = .ok ⟨[], [f]⟩ := parse_source
  rw [compileText, hparse]
  exact (Program.compile_of_parse hparse _).trans (by rw [Program.selected, if_pos rfl, hc])

end Crowded

theorem compileText_formatted_sample :
    compileText Crowded.text ⟨true, true, none, false⟩ =
        .ok ⟨⟨[], [Crowded.f]⟩, Crowded.cText⟩ ∧
      ∃ c, compileText Crowded.printed ⟨true, true, none, false⟩ = .ok c ∧
        c.cSource = Crowded.cText ∧ c.program.text = Crowded.printed ∧
        c.program.outline = Program.outline ⟨[], [Crowded.f]⟩ := by
  have hprinted := (compileText_formatted _ _).2.2 _ Crowded.compileText_text
  rw [Crowded.text_f] at hprinted
  exact ⟨Crowded.compileText_text, hprinted⟩

end Shc
