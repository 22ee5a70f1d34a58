import Shc.Proofs.Complete.Program
import Shc.Syntax.Equality

/-!
# The parser accepts exactly the grammar

The tokens of a source end in one terminal token.  A source is accepted exactly if
this is the end of the source and the tokens in front of it are those of a valid
derivation; the program is then the image of the derivation.
-/

namespace Shc

theorem Cursor.tokens_eq_append (c : Cursor) :
    ∃ ts last, c.tokens = ts ++ [last] ∧ Token.Proper ts ∧ last.isTerminal = true := by
  induction hsize : c.size using Nat.strongRecOn generalizing c with
  | _ n ih =>
    rw [Cursor.tokens]
    by_cases hterminal : c.next.1.isTerminal = true
    · rw [if_pos hterminal]
      exact ⟨[], c.next.1, rfl, Token.proper_nil, hterminal⟩
    · rw [if_neg hterminal]
      rw [Bool.not_eq_true] at hterminal
      obtain ⟨ts, last, heq, hproper, hlast⟩ :=
        ih _ (hsize ▸ c.size_next_lt hterminal) c.next.2 rfl
      refine ⟨c.next.1 :: ts, last, by rw [heq]; rfl, ?_, hlast⟩
      exact Token.proper_cons.2 ⟨hterminal, hproper⟩

theorem Stream.closed_ofSource (source : Source) : (Stream.ofSource source).Closed := by
  obtain ⟨ts, last, heq, -, hlast⟩ := (Cursor.start source).tokens_eq_append
  refine ⟨last, ?_, hlast⟩
  rw [Stream.toList_ofSource, Source.tokens, heq, List.getLast?_concat]

/-- A terminal token has nothing behind it. -/
theorem Source.later_eq_nil {source : Source} {ts later : List Token} {t : Token}
    (h : source.tokens = ts ++ t :: later) (ht : t.isTerminal = true) : later = [] := by
  obtain ⟨us, last, heq, hproper, -⟩ := (Cursor.start source).tokens_eq_append
  rw [Source.tokens, heq] at h
  rcases List.eq_nil_or_concat later with hnil | ⟨later', last', rfl⟩
  · exact hnil
  · rw [List.concat_eq_append, ← List.cons_append, ← List.append_assoc] at h
    have hmem : t ∈ us := by
      rw [(List.append_inj' h rfl).1]
      simp
    rw [hproper t hmem] at ht
    exact absurd ht (by decide)

theorem Reading.ofStream_of_eos {s : Stream} (h : s.current.kind = .eos) :
    Reading.ofStream s = ⟨[], none, s⟩ := by
  rw [Reading.ofStream, if_pos h]

theorem Stream.clean_of_eos {s : Stream} (h : s.current.kind = .eos) : s.Clean := by
  intro e he
  exact absurd (h.symm.trans he) (by simp)

/-- Items up to the end of the source are all that is read. -/
theorem Reading.ofStream_prepend_of_eos {tree : Grammar.Program} (hvalid : tree.Valid)
    {s : Stream} (h : s.current.kind = .eos) :
    Reading.ofStream (s.prepend tree.tokens) = ⟨tree.map Grammar.Item.image, none, s⟩ := by
  rw [Reading.ofStream_prepend tree hvalid (Stream.clean_of_eos h), Reading.ofStream_of_eos h,
    List.append_nil]

theorem Reading.ofSource_eq {source : Source} (h : (Stream.ofSource source).Clean) :
    Reading.ofSource source = Reading.ofStream (Stream.ofSource source) := by
  rw [Reading.ofSource, (Parser.checked_eq_ok (u := ())).2 ⟨h, rfl⟩]

namespace Program

/-- The program of an accepted source is the image of a valid derivation of its tokens. -/
theorem exists_derivation {source : Source} {p : Program} (h : parse source = .ok p) :
    ∃ (tree : Grammar.Program) (span : Span),
      source.tokens = tree.tokens ++ [⟨.eos, span⟩] ∧ tree.Valid ∧ tree.image = p := by
  rw [parse, Reading.result, Reading.ofSource] at h
  cases hchecked : Parser.checked (Stream.ofSource source) with
  | error e s => simp [hchecked] at h
  | ok u s =>
    obtain ⟨-, rfl⟩ := Parser.checked_eq_ok.1 hchecked
    simp only [hchecked] at h
    cases herror : (Reading.ofStream (Stream.ofSource source)).error with
    | some e => simp [herror] at h
    | none =>
      simp only [herror, Except.ok.injEq] at h
      obtain ⟨tree, hcons, hvalid, heos, hitems⟩ :=
        Reading.ofStream_ok (Stream.closed_ofSource source) herror
      generalize (Reading.ofStream (Stream.ofSource source)).rest = rest at hcons heos
      have htokens : source.tokens = tree.tokens ++ rest.current :: rest.later := by
        rw [← Stream.toList_ofSource, hcons.eq_prepend, Stream.toList_prepend]
        rfl
      have hlater := Source.later_eq_nil htokens (by rw [Token.isTerminal, heos]; rfl)
      refine ⟨tree, rest.current.span, ?_, hvalid, ?_⟩
      · rw [htokens, hlater, ← heos]
      · rw [Grammar.Program.image_eq_ofItems, hitems, h]

/-- A source whose tokens have a valid derivation is accepted. -/
theorem parse_of_derivation {source : Source} {tree : Grammar.Program} {span : Span}
    (htokens : source.tokens = tree.tokens ++ [⟨.eos, span⟩]) (hvalid : tree.Valid) :
    parse source = .ok tree.image := by
  have hstream : Stream.ofSource source = (Stream.of ⟨.eos, span⟩ []).prepend tree.tokens := by
    apply Stream.eq_of_toList_eq
    rw [Stream.toList_ofSource, Stream.toList_prepend, htokens]
    rfl
  have hend : (Stream.of ⟨.eos, span⟩ []).Clean := Stream.clean_of_eos rfl
  rw [parse, Reading.ofSource_eq (hstream ▸ hend.prepend (Grammar.Program.proper tree)), hstream,
    Reading.ofStream_prepend_of_eos hvalid rfl, tree.image_eq_ofItems]
  rfl

/-- There is no lexical error among the tokens of a derivation and the end of the source. -/
theorem kind_ne_error {source : Source} {tree : Grammar.Program} {span : Span}
    (htokens : source.tokens = tree.tokens ++ [⟨.eos, span⟩]) :
    ∀ t ∈ source.tokens, ∀ e, t.kind ≠ .error e := by
  intro t ht e he
  rw [htokens, List.mem_append, List.mem_singleton] at ht
  rcases ht with hmem | rfl
  · have hproper := Grammar.Program.proper tree t hmem
    rw [Token.isTerminal, he] at hproper
    exact absurd hproper (by simp [Token.Kind.isTerminal])
  · exact absurd he (by simp)

end Program

namespace Sample

/-- The columns of the first line from `start` up to `stop`. -/
def columns (start stop : Nat) : Span :=
  ⟨⟨1, start⟩, ⟨1, stop⟩⟩

/-- `f(x) * 2 < 1` behind `return`. -/
def comparison : Grammar.Expr :=
  .layer (.layer (.layer (.layer
    (.layer (.layer
      (.unary (.factor (.call "f" (columns 40 41) (columns 41 42)
        (.some (.layer (.layer (.layer (.layer (.layer (.layer
          (.unary (.factor (.var "x" (columns 42 43)))) .nil) .nil) .nil) .nil) .nil) .nil) .nil)
        (columns 43 44))))
      (.cons .mul (by decide) (columns 45 46) (.unary (.factor (.int 2 (columns 47 48)))) .nil))
      .nil)
    (.cons .lt (by decide) (columns 49 50)
      (.layer (.layer (.unary (.factor (.int 1 (columns 51 52)))) .nil) .nil) .nil))
    .nil) .nil) .nil

/-- A declaration and a function with one statement. -/
def derivation : Grammar.Program :=
  [.declaration ⟨"a", columns 1 2, columns 3 4, ⟨[], .int, columns 5 8⟩, none, columns 8 9⟩,
    .function ⟨columns 10 13, "f", columns 14 15, columns 15 16,
      .some ⟨"x", columns 16 17, columns 18 19, ⟨[], .int, columns 20 23⟩⟩ [], columns 23 24,
      columns 25 26, ⟨[], .int, columns 27 30⟩, columns 31 32,
      .cons (.ret (columns 33 39) (some comparison) (columns 52 53)) .nil, columns 54 55⟩]

theorem derivation_valid : derivation.Valid := by
  have hdeclared : Mention.Bound Grammar.Named [⟨"x", ⟨.int, 0⟩, ⟨1, 16⟩⟩] [.use "x"] :=
    Mention.bound_use_cons.2 ⟨by decide, Mention.bound_nil⟩
  exact List.forall_mem_cons.2 ⟨⟨rfl, by decide⟩,
    List.forall_mem_singleton.2 ⟨⟨trivial, trivial⟩, hdeclared, List.nodup_singleton _, by decide⟩⟩

end Sample

namespace Program

/-- A source is accepted exactly if it has no lexical error and its tokens, up to the
    end of the source, are those of a derivation of the grammar that is valid: each
    `else` belongs to the nearest open `if`, every variable is declared before it is
    used, no name is declared twice in a function, no variable occurs outside of
    functions, and at most 64 constructs are open at once.  The program is
    the image of that derivation. -/
theorem parse_eq_ok_iff_derives (source : Source) (p : Program) :
    parse source = .ok p ↔
      (∀ t ∈ source.tokens, ∀ e, t.kind ≠ .error e) ∧
      ∃ (tree : Grammar.Program) (span : Span),
        source.tokens = tree.tokens ++ [⟨.eos, span⟩] ∧ tree.Valid ∧ tree.image = p := by
  constructor
  · intro h
    obtain ⟨tree, span, htokens, hvalid, himage⟩ := exists_derivation h
    exact ⟨kind_ne_error htokens, tree, span, htokens, hvalid, himage⟩
  · rintro ⟨-, tree, span, htokens, hvalid, rfl⟩
    exact parse_of_derivation htokens hvalid

theorem parse_eq_ok_iff_derives_sample :
    parse (Source.ofString "a : int; fun f(x : int) : int \x7b return f(x) * 2 < 1; \x7d") =
      .ok ⟨[⟨"a", ⟨.int, 0⟩, ⟨1, 1⟩⟩], [⟨"f", ⟨.int, 0⟩, [⟨"x", ⟨.int, 0⟩, ⟨1, 16⟩⟩], [],
        [.ret (some ⟨[⟨none, .leaf (.leaf (.leaf (.binary .lt
          (.leaf (.leaf (.binary .mul
            (.leaf (.unary (.factor (.call ⟨"f", ⟨.void, 0⟩, [], [], [], ⟨1, 40⟩⟩
              [⟨[⟨none, .leaf (.leaf (.leaf (.leaf (.leaf (.leaf
                (.unary (.factor (.var ⟨⟨"x", ⟨.int, 0⟩, ⟨1, 16⟩⟩, 0, ⟨1, 42⟩⟩))) ⟨1, 42⟩)
                ⟨1, 42⟩) ⟨1, 42⟩) ⟨1, 42⟩) ⟨1, 42⟩) ⟨1, 42⟩, ⟨1, 42⟩⟩], ⟨1, 42⟩⟩] ⟨1, 40⟩)))
              ⟨1, 40⟩)
            (.unary (.factor (.const 2 ⟨1, 47⟩))) ⟨1, 40⟩) ⟨1, 40⟩) ⟨1, 40⟩)
          (.leaf (.leaf (.unary (.factor (.const 1 ⟨1, 51⟩))) ⟨1, 51⟩) ⟨1, 51⟩) ⟨1, 40⟩)
          ⟨1, 40⟩) ⟨1, 40⟩) ⟨1, 40⟩, ⟨1, 40⟩⟩], ⟨1, 40⟩⟩) ⟨1, 33⟩], ⟨1, 10⟩⟩]⟩ := by
  have htokens :
      (Source.ofString "a : int; fun f(x : int) : int \x7b return f(x) * 2 < 1; \x7d").tokens =
        Sample.derivation.tokens ++ [⟨.eos, Sample.columns 55 55⟩] := by
    decide +kernel
  exact (parse_eq_ok_iff_derives _ _).2 ⟨kind_ne_error htokens, Sample.derivation,
    Sample.columns 55 55, htokens, Sample.derivation_valid, rfl⟩

end Program

/-! ### Accepted sources -/

namespace Sample

/-- A function with a block, signs in a row, a call and markers. -/
def text : String :=
  "fun f(p : ^int) : int \x7b n : int; \x7b n = - -p + f(^^p); \x7d \x7d"

def source : Source :=
  Source.ofString text

/-- The parameter of the function. -/
def p : Variable :=
  ⟨"p", ⟨.int, 1⟩, ⟨1, 7⟩⟩

/-- The local of the function. -/
def n : Variable :=
  ⟨"n", ⟨.int, 0⟩, ⟨1, 25⟩⟩

/-- A value as one of `layers` looser layers. -/
def lifted (loc : Location) : (layers : Nat) → Value → Value
  | 0, v => v
  | layers + 1, v => .leaf (lifted loc layers v) loc

/-- A factor as a value of the loosest layer. -/
def plain (f : Factor) : Value :=
  lifted f.loc 6 (.unary (.factor f))

def argument : Expr :=
  ⟨[⟨none, plain (.var ⟨p, 2, ⟨1, 49⟩⟩), ⟨1, 49⟩⟩], ⟨1, 49⟩⟩

/-- The value that is stored. -/
def sum : Value :=
  lifted ⟨1, 40⟩ 4 (.binary .add
    (lifted ⟨1, 40⟩ 2
      (.unary (.signed .minus (.signed .minus (.factor (.var ⟨p, 0, ⟨1, 43⟩⟩)) ⟨1, 42⟩) ⟨1, 40⟩)))
    (lifted ⟨1, 47⟩ 1
      (.unary (.factor (.call ⟨"f", ⟨.void, 0⟩, [], [], [], ⟨1, 47⟩⟩ [argument] ⟨1, 47⟩))))
    ⟨1, 40⟩)

/-- The function of the source. -/
def f : Function :=
  ⟨"f", ⟨.int, 0⟩, [p], [n],
    [.declare n ⟨1, 25⟩, .assign ⟨some ⟨n, 0, ⟨1, 36⟩⟩, sum, ⟨1, 36⟩⟩ ⟨1, 36⟩], ⟨1, 1⟩⟩

theorem parse_source : Program.parse source = .ok ⟨[], [f]⟩ := by
  decide +kernel

end Sample

namespace Crowded

/-- A branch with an `else` in a loop, and a string that looks like the end of its
    condition, with no blank that can be left out. -/
def text : String :=
  "fun f(n:int):int\x7bwhile(n<2)\x7bif(f(\")\x7b\\n\"))n=1;else return n;\x7dreturn 3;\x7d"

def source : Source :=
  Source.ofString text

def n : Variable :=
  ⟨"n", ⟨.int, 0⟩, ⟨1, 7⟩⟩

def less : Value :=
  Sample.lifted ⟨1, 24⟩ 3 (.binary .lt
    (Sample.lifted ⟨1, 24⟩ 3 (.unary (.factor (.var ⟨n, 0, ⟨1, 24⟩⟩))))
    (Sample.lifted ⟨1, 26⟩ 2 (.unary (.factor (.const 2 ⟨1, 26⟩)))) ⟨1, 24⟩)

def test : Factor :=
  .call (.placeholder "f" ⟨1, 32⟩) [.single (Sample.plain (.string ")\x7b\n" ⟨1, 34⟩))] ⟨1, 32⟩

def choice : Statement :=
  .branch (.paren (.single (Sample.plain test)) ⟨1, 31⟩)
    [.assign ⟨some ⟨n, 0, ⟨1, 42⟩⟩, Sample.plain (.const 1 ⟨1, 44⟩), ⟨1, 42⟩⟩ ⟨1, 42⟩]
    [.ret (some (.single (Sample.plain (.var ⟨n, 0, ⟨1, 58⟩⟩)))) ⟨1, 51⟩] ⟨1, 29⟩

/-- The function of the crowded source. -/
def f : Function :=
  ⟨"f", ⟨.int, 0⟩, [n], [],
    [.loop (.paren (.single less) ⟨1, 23⟩) [choice] ⟨1, 18⟩,
      .ret (some (.single (Sample.plain (.const 3 ⟨1, 68⟩)))) ⟨1, 61⟩], ⟨1, 1⟩⟩

theorem parse_source : Program.parse source = .ok ⟨[], [f]⟩ := by
  decide +kernel

end Crowded

end Shc
