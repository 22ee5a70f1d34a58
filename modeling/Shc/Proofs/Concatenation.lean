import Shc.Proofs.Layout
import Shc.Proofs.Lexing.Seam
import Shc.Proofs.Lookahead

/-!
# Programs one after the other

Two texts with a line end between them are one program: what the first text declares and
defines, and then what the second one does.  Nothing of the first one is left over where
the second one starts, so an error in the second text is reported as in the text alone,
at its place further down.
-/

namespace Shc

/-! ### Items in front of a stream -/

/-- A token that is no lexical error is in front. -/
theorem Stream.clean_prepend {ts : List Token} (hne : ts ≠ []) (h : Token.Proper ts) (r : Stream) :
    (r.prepend ts).Clean := by
  obtain ⟨t, us, rfl⟩ := List.exists_cons_of_ne_nil hne
  exact Stream.clean_cons (h t List.mem_cons_self) _

theorem Grammar.Program.tokens_ne_nil {p : Grammar.Program} (h : p ≠ []) : p.tokens ≠ [] := by
  obtain ⟨t, q, rfl⟩ := List.exists_cons_of_ne_nil h
  intro htokens
  exact t.tokens_ne_nil (List.append_eq_nil_iff.1 htokens).1

namespace Reading

/-- Items in front of a lexical error: the last one cannot be completed, because the error
    is met behind its last token. -/
theorem error_ofStream_prepend (p : Grammar.Program) (hne : p ≠ []) (hvalid : p.Valid) {r : Stream}
    {e : LexError} (he : r.current.kind = .error e) :
    (ofStream (r.prepend p.tokens)).error = some ⟨.lex e, r.current.span⟩ := by
  induction p with
  | nil => exact absurd rfl hne
  | cons t p ih =>
    obtain ⟨ht, hp⟩ := List.forall_mem_cons.1 hvalid
    cases p with
    | nil =>
      have hclean : (Stream.of ⟨.eos, default⟩ []).Clean := Stream.clean_of_eos rfl
      have hitem := Parser.built_item.error_of_ok t.tokens_ne_nil
        (Parser.item_prepend t ht hclean) he
      have htokens : Grammar.Program.tokens [t] = t.tokens := List.append_nil _
      rw [ofStream, if_neg (Grammar.Program.current_ne_eos t [] r), htokens, hitem]
    | cons t' p =>
      have hclean := Stream.clean_prepend
        (Grammar.Program.tokens_ne_nil (List.cons_ne_nil t' p)) (Grammar.Program.proper _) r
      have hitem := Parser.item_prepend t ht hclean
      rw [ofStream_cons t (t' :: p) hitem]
      exact ih (List.cons_ne_nil t' p) hp

theorem fromStart_of_clean {s : Stream} (h : s.Clean) : fromStart s = ofStream s := by
  rw [fromStart, (Parser.checked_eq_ok (u := ())).2 ⟨h, rfl⟩]

theorem fromStart_of_error {s : Stream} {e : LexError} (h : s.current.kind = .error e) :
    fromStart s = ⟨[], some ⟨.lex e, s.current.span⟩, s⟩ := by
  rw [fromStart, Parser.checked_of_error h]

end Reading

namespace Program

/-- What one program has and then what another one has. -/
protected def append (p q : Program) : Program :=
  ⟨p.globals ++ q.globals, p.functions ++ q.functions⟩

theorem ofItems_append (items items' : List Item) :
    ofItems (items ++ items') = (ofItems items).append (ofItems items') := by
  induction items with
  | nil => rfl
  | cons item items ih =>
    rw [List.cons_append, ofItems, ih]
    cases item <;> rfl

end Program

/-- The program or the error of a valid derivation and of what follows it. -/
theorem Reading.result_prepend (p : Grammar.Program) (hvalid : p.Valid) (r : Stream) :
    (fromStart (r.prepend p.tokens)).result =
      match (fromStart r).result with
      | .ok q => .ok (p.image.append q)
      | .error e => .error e := by
  have hproper := Grammar.Program.proper p
  rcases r.clean_or_error with hclean | ⟨e, he⟩
  · rw [fromStart_of_clean hclean, fromStart_of_clean (hclean.prepend hproper),
      ofStream_prepend p hvalid hclean]
    cases herror : (ofStream r).error with
    | some e => simp only [result, herror]
    | none =>
      simp only [result, herror, Program.ofItems_append, Grammar.Program.image_eq_ofItems]
  · rw [fromStart_of_error he]
    by_cases hp : p = []
    · subst hp
      exact congrArg result (fromStart_of_error he)
    · have hfront := Stream.clean_prepend (Grammar.Program.tokens_ne_nil hp) hproper r
      rw [fromStart_of_clean hfront, result, error_ofStream_prepend p hp hvalid he]
      rfl

/-! ### Two texts -/

namespace Program

theorem parse_empty : parse (Source.ofString "") = .ok empty := by
  have htokens : (Source.ofString "").tokens =
      Grammar.Program.tokens [] ++ [⟨.eos, .point ⟨1, 1⟩⟩] := Cursor.tokens_of_terminal rfl
  exact parse_of_derivation htokens (by simp [Grammar.Program.Valid])

/-- The program that a text spells, and behind it, further down by as many lines as the
    text has, the program that another text spells.  If the second text spells none, the
    error is the same, further down. -/
theorem parse_concat {text text' : String} {p : Program}
    (h : parse (Source.ofString text) = .ok p) :
    parse (Source.ofString (text ++ "\n" ++ text')) =
      match parse (Source.ofString text') with
      | .ok q =>
        .ok ⟨p.globals ++ relocate (Location.down (text.toList.count '\n' + 1)) q.globals,
          p.functions ++ relocate (Location.down (text.toList.count '\n' + 1)) q.functions⟩
      | .error e => .error (relocate (Location.down (text.toList.count '\n' + 1)) e) := by
  obtain ⟨tree, span, htokens, hvalid, rfl⟩ := exists_derivation h
  have hchars : (text ++ "\n" ++ text').toList = text.toList ++ '\n' :: text'.toList := by simp
  rw [Source.ofString] at htokens
  rw [Source.ofString, hchars]
  by_cases hempty : text'.toList = []
  · obtain rfl : text' = "" := String.toList_eq_nil_iff.1 hempty
    obtain ⟨span', hclosed⟩ := Source.tokens_closed htokens
    rw [parse_empty, hempty, parse_of_derivation hclosed hvalid]
    simp [empty]
  · have hseam := Source.tokens_seam htokens hempty
    have hstream : Stream.ofSource (Source.ofChars (text.toList ++ '\n' :: text'.toList)) =
        (relocate (Location.down (text.toList.count '\n' + 1))
          (Stream.ofSource (Source.ofString text'))).prepend tree.tokens := by
      apply Stream.eq_of_toList_eq
      rw [Stream.toList_ofSource, hseam, Stream.toList_prepend, Stream.toList_relocate,
        Stream.toList_ofSource]
      rfl
    have hparse : ∀ source, parse source =
        (Reading.fromStart (Stream.ofSource source)).result := fun _ => rfl
    rw [hparse, hstream, Reading.result_prepend tree hvalid, Reading.fromStart_relocate,
      Reading.result_relocate, ← hparse]
    cases parse (Source.ofString text') with
    | ok q => rfl
    | error e => rfl

theorem parse_concat_sample :
    parse (Source.ofString "g /* g */\n:int ; // g") = .ok ⟨[⟨"g", ⟨.int, 0⟩, ⟨1, 1⟩⟩], []⟩ ∧
      parse (Source.ofString ("g /* g */\n:int ; // g" ++ "\n" ++ "h : ^int;")) =
        .ok ⟨[⟨"g", ⟨.int, 0⟩, ⟨1, 1⟩⟩, ⟨"h", ⟨.int, 1⟩, ⟨3, 1⟩⟩], []⟩ ∧
      parse (Source.ofString ("g /* g */\n:int ; // g" ++ "\n" ++ "h : 1;")) =
        .error ⟨.unexpected "base type (int, char or void)" (.int 1), ⟨⟨3, 5⟩, ⟨3, 6⟩⟩⟩ := by
  have hparts :
      parse (Source.ofString "g /* g */\n:int ; // g") = .ok ⟨[⟨"g", ⟨.int, 0⟩, ⟨1, 1⟩⟩], []⟩ ∧
        parse (Source.ofString "h : ^int;") = .ok ⟨[⟨"h", ⟨.int, 1⟩, ⟨1, 1⟩⟩], []⟩ ∧
        parse (Source.ofString "h : 1;") =
          .error ⟨.unexpected "base type (int, char or void)" (.int 1), ⟨⟨1, 5⟩, ⟨1, 6⟩⟩⟩ := by
    refine ⟨?_, ?_, ?_⟩ <;> decide +kernel
  obtain ⟨hfirst, hsecond, hfault⟩ := hparts
  refine ⟨hfirst, ?_, ?_⟩
  · rw [parse_concat hfirst, hsecond]
    rfl
  · rw [parse_concat hfirst, hfault]
    rfl

end Program

end Shc
