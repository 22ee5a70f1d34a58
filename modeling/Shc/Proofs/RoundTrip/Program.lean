import Shc.Proofs.GrammarExact
import Shc.Proofs.Relocate.Parser
import Shc.Proofs.RoundTrip.Spelling

/-!
# Printing and reading back

The text of an accepted program consists of lines that are read as the tokens of the
normal derivation.  A source is accepted for the kinds of its tokens alone, and where
they stand shows only in the locations of the program.  So the text of a program is
accepted, and the program that it gives differs in locations at most.
-/

namespace Shc

open Token (Kind allLexical_cons allLexical_append)

/-- A text of whole lines, which are read as tokens of these kinds. -/
def SpellsLines (text : String) (kinds : List Kind) : Prop :=
  ∃ ls, text = Line.renderAll ls ∧ ReadsLines (ls.map Line.chars) kinds

namespace SpellsLines

variable {text text' : String} {kinds kinds' : List Kind}

theorem nil : SpellsLines "" [] :=
  ⟨[], rfl, .nil⟩

theorem append (h : SpellsLines text kinds) (h' : SpellsLines text' kinds') :
    SpellsLines (text ++ text') (kinds ++ kinds') := by
  obtain ⟨ls, rfl, hls⟩ := h
  obtain ⟨ls', rfl, hls'⟩ := h'
  refine ⟨ls ++ ls', (Line.renderAll_append ls ls').symm, ?_⟩
  rw [List.map_append]
  exact hls.append hls'

theorem of_spells (h : Spells Stops text kinds) : SpellsLines (text ++ "\n") kinds :=
  ⟨[⟨0, text⟩], by simp [Line.renderAll, Line.render, Text.concat, Text.row], readsLine 0 h⟩

theorem lineEnd : SpellsLines "\n" [] :=
  of_spells (Adds.nil)

theorem kinds_eq (h : SpellsLines text kinds) :
    (Source.ofString text).tokens.map Token.kind = kinds ++ [.eos] := by
  obtain ⟨ls, rfl, hls⟩ := h
  exact Line.kinds_renderAll hls

end SpellsLines

namespace Grammar

/-! ### Functions -/

theorem Param.spells (p : Param) (h : Token.AllLexical p.tokens) :
    Spells Stops p.image.text (p.tokens.map Token.kind) :=
  spells_variable _ (allLexical_cons.1 h).1 p.type.spells

namespace Params

theorem trails (params : List (Span × Param)) (h : Token.AllLexical (moreTokens params)) :
    Trails (Text.concat (params.map fun p => ", " ++ p.2.image.text))
      ((moreTokens params).map Token.kind) := by
  induction params with
  | nil => exact trails_nil
  | cons param params ih =>
    obtain ⟨hparam, hparams⟩ := allLexical_append.1 (allLexical_cons.1 h).2
    have hmore := Trails.cons (param.2.spells hparam) (ih hparams)
    rw [← List.map_append] at hmore
    exact hmore

theorem spells (params : Params) (h : Token.AllLexical params.tokens) :
    Spells Stops (Text.joined ", " (params.image.map Variable.text))
      (params.tokens.map Token.kind) := by
  cases params with
  | none => exact Adds.nil
  | some first rest =>
    obtain ⟨hfirst, hrest⟩ := allLexical_append.1 h
    have hall := (first.spells hfirst).append_trails (trails rest hrest)
    rw [image, List.map_cons, List.map_map, Text.joined_cons, List.map_map, tokens,
      List.map_append]
    exact hall

end Params

namespace Function

theorem spells_head (f : Function) (hname : Lexeme.IsName f.name)
    (hparams : Token.AllLexical f.params.tokens) :
    Spells Stops ("fun " ++ callText f.name (f.params.image.map Variable.text) ++ " : " ++
        f.returns.image.text)
      (.keyword .funKw :: .ident f.name :: .symbol .lparen :: (f.params.tokens.map Token.kind ++
        .symbol .rparen :: .symbol .colon :: f.returns.tokens.map Token.kind)) := by
  have hword : Spells Anything "fun " [.keyword .funKw] := spells_wordSpace .funKw
  have hcall := hword.append_any (spells_call hname (f.params.spells hparams))
  have hall := (hcall.append_any spells_colonSpaced).append_any f.returns.spells
  exact hall.of_eq rfl (by simp)

theorem headText_image (f : Function) : f.image.headText =
    "fun " ++ callText f.name (f.params.image.map Variable.text) ++ " : " ++
      f.returns.image.text ++ " \x7b" := by
  have hclose : ") : " = ")" ++ " : " := rfl
  rw [Function.headText, hclose]
  simp only [callText, String.append_assoc]
  rfl

theorem spellsLines (f : Function) (h : Token.AllLexical f.tokens) :
    SpellsLines f.image.text (f.normal.tokens.map Token.kind) := by
  obtain ⟨hname, h⟩ := allLexical_cons.1 (allLexical_cons.1 h).2
  obtain ⟨hparams, h⟩ := allLexical_append.1 (allLexical_cons.1 h).2
  have hbody := (allLexical_append.1 (allLexical_cons.1
    (allLexical_append.1 (allLexical_cons.1 (allLexical_cons.1 h).2).2).2).2).1
  have hprints : Prints 1 (f.body.image f.env ++ [])
      ((f.body.normalOnto .nil).tokens.map Token.kind) :=
    f.body.prints f.name_env hbody Prints.nil
  rw [List.append_nil] at hprints
  have hlines := (Prints.opened (f.spells_head hname hparams) hprints).append (Prints.closed 0)
  refine ⟨f.image.lines, rfl, ?_⟩
  rw [Function.lines, headText_image, List.map_append]
  refine (congrArg (ReadsLines _) ?_).mp hlines
  simp [normal, tokens]

end Function

/-! ### Programs -/

theorem Declaration.spellsLines (d : Declaration) (h : Token.AllLexical d.tokens) :
    SpellsLines (d.image.text ++ ";\n") (d.normal.tokens.map Token.kind) := by
  have hline := (d.spells h).append_starts spells_semicolon (by decide)
  have hlines := SpellsLines.of_spells hline.weaken
  rw [String.append_assoc] at hlines
  refine (congrArg (SpellsLines _) ?_).mp hlines
  simp [normal, tokens, tailTokens, initTokens]

namespace Program

theorem allLexical_declaration {p : Program} (h : Token.AllLexical p.tokens) {d : Declaration}
    (hd : d ∈ p.declarations) : Token.AllLexical d.tokens := by
  obtain ⟨item, hitem, heq⟩ := List.mem_filterMap.1 hd
  cases item with
  | function f => simp [Item.asDeclaration?] at heq
  | declaration d' =>
    obtain rfl : d' = d := by simpa [Item.asDeclaration?] using heq
    exact fun t ht => h t (List.mem_flatMap.2 ⟨_, hitem, ht⟩)

theorem allLexical_function {p : Program} (h : Token.AllLexical p.tokens) {f : Function}
    (hf : f ∈ p.functions) : Token.AllLexical f.tokens := by
  obtain ⟨item, hitem, heq⟩ := List.mem_filterMap.1 hf
  cases item with
  | declaration d => simp [Item.asFunction?] at heq
  | function f' =>
    obtain rfl : f' = f := by simpa [Item.asFunction?] using heq
    exact fun t ht => h t (List.mem_flatMap.2 ⟨_, hitem, ht⟩)

theorem spellsLines_globals (ds : List Declaration) (h : ∀ d ∈ ds, Token.AllLexical d.tokens) :
    SpellsLines (Text.concat ((ds.map Declaration.image).map fun v => v.text ++ ";\n"))
      ((tokens (ds.map fun d => .declaration d.normal)).map Token.kind) := by
  induction ds with
  | nil => exact .nil
  | cons d ds ih =>
    obtain ⟨hd, hds⟩ := List.forall_mem_cons.1 h
    have hall := (d.spellsLines hd).append (ih hds)
    rw [← List.map_append] at hall
    exact hall

theorem spellsLines_functions (fs : List Function) (h : ∀ f ∈ fs, Token.AllLexical f.tokens) :
    SpellsLines (functionsText (fs.map Function.image))
      ((tokens (fs.map fun f => .function f.normal)).map Token.kind) := by
  have hmore : ∀ gs : List Function, (∀ g ∈ gs, Token.AllLexical g.tokens) →
      SpellsLines (Text.concat (gs.map fun g => "\n" ++ g.image.text))
        ((tokens (gs.map fun g => .function g.normal)).map Token.kind) := by
    intro gs hgs
    induction gs with
    | nil => exact .nil
    | cons g gs ih =>
      obtain ⟨hg, hgs⟩ := List.forall_mem_cons.1 hgs
      have hall := (SpellsLines.lineEnd.append (g.spellsLines hg)).append (ih hgs)
      rw [List.nil_append, ← List.map_append] at hall
      exact hall
  cases fs with
  | nil => exact .nil
  | cons f fs =>
    obtain ⟨hf, hfs⟩ := List.forall_mem_cons.1 h
    have hall := (f.spellsLines hf).append (hmore fs hfs)
    rw [← List.map_append] at hall
    rw [functionsText, List.map_cons, List.map_cons, Text.joined_cons, List.map_map, List.map_map]
    exact hall

/-- The text of a program is read as the tokens of the normal derivation. -/
theorem spellsLines {p : Program} (h : Token.AllLexical p.tokens) :
    SpellsLines p.image.text ((normal p).tokens.map Token.kind) := by
  have hglobals := spellsLines_globals p.declarations fun _ => allLexical_declaration h
  have hfunctions := spellsLines_functions p.functions fun _ => allLexical_function h
  have hseparator : ∀ b : Prop, [Decidable b] → SpellsLines (if b then "" else "\n") [] := by
    intro b _
    by_cases hb : b
    · rw [if_pos hb]
      exact .nil
    · rw [if_neg hb]
      exact .lineEnd
  rw [p.image_eq, Program.text, normal, tokens, List.flatMap_append, List.map_append,
    ← List.append_nil (List.map Token.kind _)]
  exact (hglobals.append (hseparator _)).append hfunctions

end Program

end Grammar

/-! ### Reading back -/

namespace Program

/-- A source is accepted if its tokens are, up to their places, those of a valid
    derivation; the program is then the image up to locations. -/
theorem parse_of_kinds {source : Source} {tree : Grammar.Program}
    (hkinds : source.tokens.map Token.kind = tree.tokens.map Token.kind ++ [.eos])
    (hvalid : tree.Valid) : ∃ p, parse source = .ok p ∧ erase p = erase tree.image := by
  let last : Stream := Stream.of ⟨.eos, default⟩ []
  have hlast : last.Clean := Stream.clean_of_eos rfl
  have hstream : erase (Stream.ofSource source) = erase (last.prepend tree.tokens) := by
    apply Stream.eq_of_toList_eq
    rw [erase, erase, Stream.toList_relocate, Stream.toList_relocate, Stream.toList_ofSource,
      Stream.toList_prepend]
    refine erase_tokens_eq ?_
    rw [hkinds, List.map_append]
    rfl
  have hclean : (Stream.ofSource source).Clean := by
    have hprepended : (erase (last.prepend tree.tokens)).Clean :=
      hlast.prepend (Grammar.Program.proper tree)
    rw [← hstream] at hprepended
    exact hprepended
  have hread : erase (Reading.ofStream (Stream.ofSource source)) =
      erase ⟨tree.map Grammar.Item.image, none, last⟩ := by
    calc erase (Reading.ofStream (Stream.ofSource source))
        = Reading.ofStream (erase (Stream.ofSource source)) :=
          (Reading.ofStream_relocate _ _).symm
      _ = Reading.ofStream (erase (last.prepend tree.tokens)) := by rw [hstream]
      _ = erase (Reading.ofStream (last.prepend tree.tokens)) := Reading.ofStream_relocate _ _
      _ = erase ⟨tree.map Grammar.Item.image, none, last⟩ := by
          rw [Reading.ofStream_prepend_of_eos hvalid rfl]
  have herror : (Reading.ofStream (Stream.ofSource source)).error = none :=
    Option.map_eq_none_iff.1 (congrArg Reading.error hread)
  refine ⟨ofItems (Reading.ofStream (Stream.ofSource source)).items, ?_, ?_⟩
  · rw [parse, Reading.ofSource_eq hclean, Reading.result, herror]
  · rw [erase, erase, tree.image_eq_ofItems, relocate_ofItems, relocate_ofItems]
    exact congrArg ofItems (congrArg Reading.items hread)

/-- The text of an accepted program is accepted, and the program that it gives is the
    same once every location is erased. -/
theorem parse_text {source : Source} {p : Program} (h : parse source = .ok p) :
    ∃ p', parse (Source.ofString p.text) = .ok p' ∧ erase p' = erase p := by
  obtain ⟨tree, span, htokens, hvalid, rfl⟩ := exists_derivation h
  have hlexical := Token.allLexical_of_source htokens
  have hkinds := (Grammar.Program.spellsLines hlexical).kinds_eq
  rw [← Grammar.Program.image_normal tree]
  rw [← Grammar.Program.image_normal tree] at hkinds
  exact parse_of_kinds hkinds (Grammar.Program.valid_normal hvalid)

theorem parse_text_sample :
    parse Sample.source = .ok ⟨[], [Sample.f]⟩ ∧
      ∃ p', parse (Source.ofString (text ⟨[], [Sample.f]⟩)) = .ok p' ∧
        erase p' = erase ⟨[], [Sample.f]⟩ :=
  ⟨Sample.parse_source, parse_text Sample.parse_source⟩

end Program

end Shc
