import Shc.Proofs.Complete.Statement
import Shc.Proofs.Sound.Program

/-!
# Derived programs are accepted

The parameters of a function are declared one after the other in an empty scope,
which is then ready for the body: the derivation says that the names are distinct
and that what occurs was declared before.
-/

namespace Shc

open Token (Kind)
open Grammar (symbolAt wordAt nameAt)

/-! ### Tokens of items -/

namespace Grammar

theorem Params.proper (ps : Params) : Token.Proper ps.tokens := by
  cases ps with
  | none => exact Token.proper_nil
  | some first rest => exact Token.proper_append.2 ⟨first.proper, proper_moreTokens rest⟩

theorem Item.proper (item : Item) : Token.Proper item.tokens := by
  cases item with
  | function f =>
    simp [Item.tokens, Function.tokens, Token.isTerminal, Kind.isTerminal, f.params.proper,
      f.returns.proper, f.body.proper]
  | declaration d =>
    simp [Item.tokens, Declaration.tokens, Token.isTerminal, Kind.isTerminal, d.proper_tailTokens]

theorem Program.proper (p : Program) : Token.Proper p.tokens := by
  intro t ht
  obtain ⟨item, -, hitem⟩ := List.mem_flatMap.1 ht
  exact item.proper t hitem

end Grammar

namespace Parser

/-! ### Parameters -/

theorem param_prepend {scope : Scope} (hscope : scope.Indexed) (p : Grammar.Param) {r : Stream}
    (hr : r.Clean) (hfree : p.name ∉ scope.vars.map Variable.name) :
    ∃ scope', param scope (r.prepend p.tokens) = .ok scope' r ∧ scope'.Indexed ∧
      scope'.params = scope.params ++ [p.image] ∧ scope'.locals = scope.locals := by
  obtain ⟨scope', hdeclare, hfacts⟩ := hscope.declareParam?_of_notMem (v := p.image) hfree
  refine ⟨scope', ?_, hfacts⟩
  have htype := hr.prepend p.type.proper
  rw [Grammar.Param.tokens, Stream.prepend_cons, Stream.prepend_cons, param,
    bind_of_ok (name_cons (Stream.clean_cons rfl _))]
  dsimp only
  rw [bind_of_ok (expect_cons rfl htype), bind_of_ok (type_prepend p.type hr)]
  rw [Grammar.Param.image] at hdeclare
  simp only [hdeclare]
  rfl

theorem moreParams_prepend (ps : List (Span × Grammar.Param)) {scope : Scope} {r : Stream}
    (hscope : scope.Indexed) (hlocals : scope.locals = [])
    (hnames : ((scope.params ++ ps.map fun p => p.2.image).map Variable.name).Nodup)
    (hr : r.Clean) (hnext : r.current.kind ≠ .symbol .comma) :
    ∃ scope', iterate (fun scope => do
        if ← accept (.symbol .comma) then return some (← param scope) else return none) scope
        (r.prepend (Grammar.Params.moreTokens ps)) = .ok scope' r ∧ scope'.Indexed ∧
      scope'.params = scope.params ++ ps.map (fun p => p.2.image) ∧ scope'.locals = [] := by
  induction ps generalizing scope with
  | nil => exact ⟨scope, acceptLoop_of_ne hnext, hscope, by simp, hlocals⟩
  | cons p ps ih =>
    obtain ⟨comma, p⟩ := p
    have hclean := hr.prepend (Grammar.Params.proper_moreTokens ps)
    have hfree : p.name ∉ scope.vars.map Variable.name := by
      rw [Scope.vars, hlocals, List.append_nil]
      intro hmem
      rw [List.map_append, List.nodup_append] at hnames
      exact hnames.2.2 p.name hmem p.name (by simp [Grammar.Param.image]) rfl
    obtain ⟨scope₁, hparam, hscope₁, hparams₁, hlocals₁⟩ := param_prepend hscope p hclean hfree
    have hnames₁ : ((scope₁.params ++ ps.map fun p => p.2.image).map Variable.name).Nodup := by
      rw [hparams₁, List.append_assoc]
      exact hnames
    obtain ⟨scope₂, hloop, hscope₂, hparams₂, hlocals₂⟩ :=
      ih hscope₁ (hlocals₁.trans hlocals) hnames₁
    refine ⟨scope₂, ?_, hscope₂, ?_, hlocals₂⟩
    · rw [Grammar.Params.moreTokens, Stream.prepend_cons, Stream.prepend_append,
        acceptLoop_cons rfl (hclean.prepend p.proper) (bind_of_ok hparam _) ?_, hloop]
      simp only [Stream.size_prepend]
      omega
    · rw [hparams₂, hparams₁, List.append_assoc]
      rfl

theorem params_prepend (ps : Grammar.Params) {r : Stream} (closing : Span)
    (hnames : (ps.image.map Variable.name).Nodup) :
    ∃ scope, params ((r.cons (symbolAt .rparen closing)).prepend ps.tokens) =
        .ok scope (r.cons (symbolAt .rparen closing)) ∧
      scope.Indexed ∧ scope.params = ps.image ∧ scope.locals = [] := by
  have hclose : (r.cons (symbolAt .rparen closing)).Clean := Stream.clean_cons rfl r
  cases ps with
  | none => exact ⟨Scope.empty, rfl, Scope.indexed_empty, rfl, rfl⟩
  | some first rest =>
    have hrest := hclose.prepend (Grammar.Params.proper_moreTokens rest)
    obtain ⟨scope₁, hparam, hscope₁, hparams₁, hlocals₁⟩ :=
      param_prepend Scope.indexed_empty first hrest (by simp [Scope.vars, Scope.empty])
    have hnames₁ : ((scope₁.params ++ rest.map fun p => p.2.image).map Variable.name).Nodup := by
      rw [hparams₁]
      exact hnames
    obtain ⟨scope₂, hloop, hscope₂, hparams₂, hlocals₂⟩ :=
      moreParams_prepend rest hscope₁ hlocals₁ hnames₁ hclose (by simp)
    refine ⟨scope₂, ?_, hscope₂, ?_, hlocals₂⟩
    · rw [Grammar.Params.tokens, Stream.prepend_append, params, peek_bind, if_neg ?_,
        bind_of_ok hparam]
      · exact hloop
      · simp [Grammar.Param.tokens]
    · rw [hparams₂, hparams₁]
      rfl

/-! ### Items -/

/-- The scope of the parameters is ready for the body. -/
theorem ready_of_valid {f : Grammar.Function} (hvalid : (Grammar.Item.function f).Valid)
    {scope : Scope} (hscope : scope.Indexed) (hparams : scope.params = f.params.image)
    (hlocals : scope.locals = []) : scope.Ready f.env f.body.mentions := by
  have hvars : scope.vars = f.params.image := by
    rw [Scope.vars, hparams, hlocals, List.append_nil]
  refine ⟨hscope, hvars ▸ hvalid.2.1, hvars ▸ hvalid.2.2.1, ?_⟩
  intro v hv
  rw [hvars] at hv
  exact Grammar.Function.env_eq_of_mem hvalid.2.2.1 hv

theorem function_prepend (f : Grammar.Function) (hvalid : (Grammar.Item.function f).Valid)
    {r : Stream} (hr : r.Clean) : function (r.prepend f.tokens) = .ok f.image r := by
  have hnames : (f.params.image.map Variable.name).Nodup := by
    have hdistinct := hvalid.2.2.1
    rw [Grammar.Function.Distinct, Grammar.Function.vars, List.map_append] at hdistinct
    exact (List.nodup_append.1 hdistinct).1
  -- the streams between the parts, from the end of the function to its start
  let s₁ := r.cons (symbolAt .rbrace f.rbrace)
  let s₂ := (s₁.prepend f.body.tokens).cons (symbolAt .lbrace f.lbrace)
  let s₃ := (s₂.prepend f.returns.tokens).cons (symbolAt .colon f.colon)
  have hs₁ : s₁.Clean := Stream.clean_cons rfl r
  have hs₂ : s₂.Clean := Stream.clean_cons rfl _
  have hs₃ : s₃.Clean := Stream.clean_cons rfl _
  obtain ⟨scope, hrun, hscope, hparams, hlocals⟩ :=
    params_prepend (r := s₃) f.params f.closing hnames
  have hready := ready_of_valid hvalid hscope hparams hlocals
  have hdepth : f.body.depth ≤ maxNesting := hvalid.2.2.2
  obtain ⟨scope', hbody, hgrows⟩ := statements_run f.body hready hdepth hvalid.1 hs₁ rfl []
  have hclose : (s₃.cons (symbolAt .rparen f.closing)).Clean := Stream.clean_cons rfl _
  have htokens : r.prepend f.tokens = ((((s₃.cons (symbolAt .rparen f.closing)).prepend
      f.params.tokens).cons (symbolAt .lparen f.opening)).cons (nameAt f.name f.span)).cons
      (wordAt .funKw f.word) := by
    simp [Grammar.Function.tokens, Stream.prepend_append, s₁, s₂, s₃]
  rw [htokens, function, functionOf, peek_bind,
    bind_of_ok (expect_cons rfl (Stream.clean_cons rfl _)),
    bind_of_ok (name_cons (Stream.clean_cons rfl _))]
  dsimp only
  rw [bind_of_ok (expect_cons rfl (hclose.prepend f.params.proper)), bind_of_ok hrun,
    bind_of_ok (expect_cons rfl hs₃),
    bind_of_ok (expect_cons rfl (hs₂.prepend f.returns.proper)),
    bind_of_ok (type_prepend f.returns hs₂),
    bind_of_ok (expect_cons rfl (hs₁.prepend f.body.proper))]
  rw [statements_eq, bind_of_ok hbody]
  dsimp only
  rw [bind_of_ok (expect_cons rfl hr), pure_run, hgrows.params_eq, hgrows.locals_eq, hparams,
    hlocals]
  rfl

theorem global_prepend (d : Grammar.Declaration) (hvalid : (Grammar.Item.declaration d).Valid)
    {r : Stream} (hr : r.Clean) : global (r.prepend d.tokens) = .ok d.image r := by
  have hfits : Fits Scope.empty (fun _ => d.image) maxNesting d.uses d.depth :=
    ⟨by simp [hvalid.1], hvalid.2⟩
  rw [Grammar.Declaration.tokens, Stream.prepend_cons, global, globalOf,
    bind_of_ok (name_cons (hr.prepend d.proper_tailTokens))]
  exact declaration_prepend d hfits hr

theorem item_prepend (t : Grammar.Item) (hvalid : t.Valid) {r : Stream} (hr : r.Clean) :
    item (r.prepend t.tokens) = .ok t.image r := by
  cases t with
  | function f => exact bind_of_ok (function_prepend f hvalid hr) _
  | declaration d => exact bind_of_ok (global_prepend d hvalid hr) _

end Parser

/-! ### Item after item -/

theorem Grammar.Program.current_ne_eos (t : Grammar.Item) (p : Grammar.Program) (r : Stream) :
    (r.prepend (Grammar.Program.tokens (t :: p))).current.kind ≠ .eos := by
  cases t with
  | function f => simp [Grammar.Program.tokens, Grammar.Item.tokens, Grammar.Function.tokens]
  | declaration d =>
    simp [Grammar.Program.tokens, Grammar.Item.tokens, Grammar.Declaration.tokens]

/-- The first item is read, and then the others are. -/
theorem Reading.ofStream_cons (t : Grammar.Item) (p : Grammar.Program) {r : Stream} {item : Item}
    (h : Parser.item ((r.prepend (Grammar.Program.tokens p)).prepend t.tokens) =
      .ok item (r.prepend (Grammar.Program.tokens p))) :
    Reading.ofStream (r.prepend (Grammar.Program.tokens (t :: p))) =
      { Reading.ofStream (r.prepend (Grammar.Program.tokens p)) with
        items := item :: (Reading.ofStream (r.prepend (Grammar.Program.tokens p))).items } := by
  have htokens : r.prepend (Grammar.Program.tokens (t :: p)) =
      (r.prepend (Grammar.Program.tokens p)).prepend t.tokens := by
    rw [← Stream.prepend_append]
    rfl
  have hlt : (r.prepend (Grammar.Program.tokens p)).size <
      (r.prepend (Grammar.Program.tokens (t :: p))).size := by
    rw [htokens, Stream.size_prepend t.tokens]
    have hpos := List.length_pos_iff.2 t.tokens_ne_nil
    omega
  rw [Reading.ofStream, if_neg (Grammar.Program.current_ne_eos t p r)]
  rw [← htokens] at h
  simp only [h, if_pos hlt]

/-- Items in front of a rest that starts with no lexical error are read, and then the rest is. -/
theorem Reading.ofStream_prepend (p : Grammar.Program) (hvalid : p.Valid) {r : Stream}
    (hr : r.Clean) :
    Reading.ofStream (r.prepend p.tokens) =
      { Reading.ofStream r with
        items := p.map Grammar.Item.image ++ (Reading.ofStream r).items } := by
  induction p with
  | nil => rfl
  | cons t p ih =>
    have hvalid' := List.forall_mem_cons.1 hvalid
    have hitem := Parser.item_prepend t hvalid'.1 (hr.prepend (Grammar.Program.proper p))
    rw [Reading.ofStream_cons t p hitem, ih hvalid'.2]
    rfl

end Shc
