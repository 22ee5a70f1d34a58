import Mathlib.Data.List.Nodup
import Shc.Proofs.Sound.Statement

/-!
# Accepted programs derive from the grammar

Functions and declarations at the top level, and the reading of one item after the
other.  The scope at the end of a function has all its parameters and locals, no
two under the same name, and the environment of the derivation is the one that
this scope gives.
-/

namespace Shc

open Grammar (symbolAt wordAt nameAt)

/-- A key that no other element has finds its element. -/
theorem find?_of_nodup {α : Type} {key : α → String} {l : List α} (hnodup : (l.map key).Nodup)
    {a : α} (h : a ∈ l) : l.find? (fun b => key b = key a) = some a := by
  have hsome : (l.find? (fun b => key b = key a)).isSome := by
    rw [List.find?_isSome]
    exact ⟨a, h, by simp⟩
  obtain ⟨b, hb⟩ := Option.isSome_iff_exists.1 hsome
  have hkey : key b = key a := by simpa using List.find?_some hb
  rw [hb, List.inj_on_of_nodup_map hnodup (List.mem_of_find?_eq_some hb) h hkey]

theorem Grammar.Function.env_eq_of_mem {f : Grammar.Function} (hdistinct : f.Distinct)
    {v : Variable} (hv : v ∈ f.vars) : f.env v.name = v := by
  rw [env, find?_of_nodup hdistinct hv]
  rfl

namespace Parser

theorem function_finds : Finds function Grammar.Function.tokens
    (fun f found => (Grammar.Item.function f).Valid ∧ f.image = found) := by
  intro s s' found hs h
  rw [function, functionOf, peek_bind] at h
  obtain ⟨u₁, s₁, hword, h⟩ := bind_eq_ok.1 h
  obtain ⟨word, hcons₁⟩ := expect_ok hs rfl hword
  obtain ⟨⟨n, span⟩, s₂, hname, h⟩ := bind_eq_ok.1 h
  have hcons₂ := name_ok hcons₁.closed hname
  obtain ⟨u₃, s₃, hopen, h⟩ := bind_eq_ok.1 h
  obtain ⟨opening, hcons₃⟩ := expect_ok hcons₂.closed rfl hopen
  obtain ⟨scope, s₄, hparams, h⟩ := bind_eq_ok.1 h
  obtain ⟨ps, hcons₄, hscope, hps, hnone⟩ := params_finds hcons₃.closed hparams
  obtain ⟨u₅, s₅, hclose, h⟩ := bind_eq_ok.1 h
  obtain ⟨closing, hcons₅⟩ := expect_ok hcons₄.closed rfl hclose
  obtain ⟨u₆, s₆, hcolon, h⟩ := bind_eq_ok.1 h
  obtain ⟨colon, hcons₆⟩ := expect_ok hcons₅.closed rfl hcolon
  obtain ⟨ty, s₇, htype, h⟩ := bind_eq_ok.1 h
  obtain ⟨returns, hcons₇, rfl⟩ := type_finds hcons₆.closed htype
  obtain ⟨u₈, s₈, hlbrace, h⟩ := bind_eq_ok.1 h
  obtain ⟨lbrace, hcons₈⟩ := expect_ok hcons₇.closed rfl hlbrace
  obtain ⟨⟨scope', statements⟩, s₉, hbody, h⟩ := bind_eq_ok.1 h
  obtain ⟨ts, hcons₉, hnearest, hleaves⟩ :=
    statements_ok (statement_finds maxNesting) hscope hcons₈.closed hbody
  obtain ⟨u₁₀, s₁₀, hrbrace, hpure⟩ := bind_eq_ok.1 h
  obtain ⟨rbrace, hcons₁₀⟩ := expect_ok hcons₉.closed rfl hrbrace
  obtain ⟨rfl, rfl⟩ := pure_eq_ok.1 hpure
  have hstart : scope.vars = ps.image := by rw [Scope.vars, hps, hnone, List.append_nil]
  have hlocals : scope'.locals = Mention.declared ts.mentions := by
    rw [hleaves.grows.locals_eq, hnone, List.nil_append]
  have hparams' : scope'.params = ps.image := hleaves.grows.params_eq.trans hps
  let f : Grammar.Function :=
    ⟨word, n, span, opening, ps, closing, colon, returns, lbrace, ts, rbrace⟩
  have hvars : scope'.vars = f.vars := by
    rw [Scope.vars, hparams', hlocals]
    rfl
  have hdistinct : f.Distinct := by
    rw [Grammar.Function.Distinct, ← hvars]
    exact hleaves.grows.indexed.nodup_names
  have henv : scope'.Agrees f.env := by
    intro name v hfind
    obtain ⟨hmem, rfl⟩ := hleaves.grows.indexed.find?_eq_some_iff.1 hfind
    exact Grammar.Function.env_eq_of_mem hdistinct (hvars ▸ hmem)
  refine ⟨f, ?_, ⟨hnearest, ?_, hdistinct, hleaves.depth_le⟩, ?_⟩
  · have hall := hcons₁.trans (hcons₂.trans (hcons₃.trans (hcons₄.trans (hcons₅.trans
      (hcons₆.trans (hcons₇.trans (hcons₈.trans (hcons₉.trans hcons₁₀))))))))
    simpa [Grammar.Function.tokens] using hall
  · have hbound := hleaves.grows.bound
    rw [hstart] at hbound
    exact hbound
  · rw [Grammar.Function.image, hleaves.image_eq henv, Token.loc, hcons₁.current_eq, hparams',
      hlocals]
    rfl

theorem global_finds : Finds global Grammar.Declaration.tokens
    (fun d found => (Grammar.Item.declaration d).Valid ∧ d.image = found) := by
  intro s s' found hs h
  rw [global, globalOf] at h
  obtain ⟨⟨n, span⟩, s₁, hname, hrest⟩ := bind_eq_ok.1 h
  have hcons₁ := name_ok hs hname
  obtain ⟨d, rfl, rfl, rfl, hcons₂, hmeans⟩ :=
    declaration_ok (exprOf_finds (unary_finds _ _)) hcons₁.closed hrest
  refine ⟨d, hcons₁.trans hcons₂, ⟨?_, hmeans.depth_le⟩, rfl⟩
  -- no name denotes anything outside functions
  rw [List.eq_nil_iff_forall_not_mem]
  intro name hmem
  obtain ⟨v, hfind⟩ := hmeans.known name hmem
  simp [Scope.find?, Scope.empty] at hfind

theorem item_finds : Finds item Grammar.Item.tokens
    (fun t found => t.Valid ∧ t.image = found) := by
  intro s s' found hs h
  rw [item, itemOf, peek_bind] at h
  generalize s.current.kind = kind at h
  split at h
  · obtain ⟨f, s₁, hfunction, hpure⟩ := bind_eq_ok.1 h
    obtain ⟨t, hcons, hvalid, rfl⟩ := function_finds hs hfunction
    obtain ⟨rfl, rfl⟩ := pure_eq_ok.1 hpure
    exact ⟨.function t, hcons, hvalid, rfl⟩
  · obtain ⟨v, s₁, hglobal, hpure⟩ := bind_eq_ok.1 h
    obtain ⟨d, hcons, hvalid, rfl⟩ := global_finds hs hglobal
    obtain ⟨rfl, rfl⟩ := pure_eq_ok.1 hpure
    exact ⟨.declaration d, hcons, hvalid, rfl⟩
  · simp at h

end Parser

/-! ### Item after item -/

theorem Grammar.Item.tokens_ne_nil (item : Grammar.Item) : item.tokens ≠ [] := by
  cases item <;> simp [tokens, Function.tokens, Declaration.tokens]

/-- Reading to the end without an error has consumed a derivation of the program,
    and the end of the source is what is left. -/
theorem Reading.ofStream_ok {s : Stream} (hs : s.Closed)
    (h : (Reading.ofStream s).error = none) :
    ∃ p : Grammar.Program, s.Consumes p.tokens (Reading.ofStream s).rest ∧ p.Valid ∧
      (Reading.ofStream s).rest.current.kind = .eos ∧
      p.map Grammar.Item.image = (Reading.ofStream s).items := by
  induction hsize : s.size using Nat.strongRecOn generalizing s with
  | _ n ih =>
    rw [Reading.ofStream] at h ⊢
    by_cases hend : s.current.kind = .eos
    · rw [if_pos hend]
      exact ⟨[], .refl hs, by simp [Grammar.Program.Valid], hend, rfl⟩
    · rw [if_neg hend] at h ⊢
      cases hitem : Parser.item s with
      | error e s' => simp [hitem] at h
      | ok item s' =>
        obtain ⟨t, hcons, hvalid, rfl⟩ := Parser.item_finds hs hitem
        have hlt : s'.size < s.size := by
          rw [hcons.eq_prepend, Stream.size_prepend]
          have hpos := List.length_pos_iff.2 t.tokens_ne_nil
          omega
        simp only [hitem, if_pos hlt] at h ⊢
        obtain ⟨p, hconsRest, hvalidRest, heos, hitems⟩ :=
          ih _ (hsize ▸ hlt) hcons.closed h rfl
        refine ⟨t :: p, hcons.trans hconsRest, ?_, heos, by simp [hitems]⟩
        rw [Grammar.Program.Valid, List.forall_mem_cons]
        exact ⟨hvalid, hvalidRest⟩

end Shc
