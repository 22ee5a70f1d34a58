import Shc.Proofs.Lexing.Trailing
import Shc.Proofs.Text.Lines
import Shc.Proofs.Text.Utf8

/-!
# Bytes that are no text

A source given as bytes is decoded line by line, and reading breaks off at the first line
that cannot be decoded.  The lines in front of it are lexed as if they were the whole
source.  Only what the end of the source would have been is different: where the lexer
would have reported that the source is over, or that a comment stays open, it reports
the line it cannot read.
-/

namespace Shc

/-! ### A source that breaks off -/

/-- The last token of a source, if reading breaks off in the line `line` instead. -/
def Token.brokenOff (error : ReadError) (line : Nat) (t : Token) : Token :=
  if t.kind = .eos ∨ t.kind = .error .unterminatedComment then
    ⟨.error (.unreadable error), .point ⟨line, 1⟩⟩
  else t

namespace Cursor

/-- The place in a source that breaks off behind its last line. -/
def breaking (c : Cursor) (error : ReadError) : Cursor :=
  { c with failure := some error }

theorem brokenOff_terminal {c : Cursor} (h : c.failure = none) (error : ReadError) (gap : Gap) :
    (c.terminal gap).brokenOff error (c.line + 1) = (c.breaking error).terminal gap := by
  rcases c with ⟨line, column, rest, later, failure⟩
  cases h
  cases gap with
  | space => rfl
  | comment start => rfl

theorem brokenOff_take (c : Cursor) (head : Char) (tail : List Char) (error : ReadError)
    (line : Nat) : (c.take head tail).1.brokenOff error line = (c.take head tail).1 := by
  have hkind : Lexeme.endsSource (c.take head tail).1.kind = false :=
    Lexeme.endsSource_read head tail
  rw [Token.brokenOff, if_neg]
  rintro (heos | hcomment)
  · rw [heos] at hkind
    cases hkind
  · rw [hcomment] at hkind
    cases hkind

/-- The search for a token finds the same one, or comes to the end of the last line. -/
theorem nextIn_breaking (error : ReadError) (later : List (List Char)) (line column : Nat)
    (rest : List Char) (gap : Gap) :
    (∃ (c : Cursor) (head : Char) (tail : List Char),
      c.failure = none ∧ c.line + c.later.length = line + later.length ∧
        nextIn none later line column rest gap = c.take head tail ∧
        nextIn (some error) later line column rest gap = (c.breaking error).take head tail) ∨
    ∃ (c : Cursor) (gap' : Gap), c.failure = none ∧ c.line = line + later.length ∧
      nextIn none later line column rest gap = (c.terminal gap', c) ∧
      nextIn (some error) later line column rest gap =
        ((c.breaking error).terminal gap', c.breaking error) := by
  induction later generalizing line column rest gap with
  | nil =>
    cases hcross : Gap.cross line gap column rest with
    | token column' head tail =>
      refine .inl ⟨⟨line, column', head :: tail, [], none⟩, head, tail, rfl, rfl, ?_, ?_⟩
      · rw [nextIn, hcross]
      · rw [nextIn, hcross]
        rfl
    | lineEnd gap' =>
      refine .inr ⟨⟨line, column + rest.length, [], [], none⟩, gap', rfl, rfl, ?_, ?_⟩
      · rw [nextIn, hcross]
      · rw [nextIn, hcross]
        rfl
  | cons line' later ih =>
    cases hcross : Gap.cross line gap column rest with
    | token column' head tail =>
      refine .inl
        ⟨⟨line, column', head :: tail, line' :: later, none⟩, head, tail, rfl, rfl, ?_, ?_⟩
      · rw [nextIn, hcross]
      · rw [nextIn, hcross]
        rfl
    | lineEnd gap' =>
      have hstep : ∀ failure, nextIn failure (line' :: later) line column rest gap =
          nextIn failure later (line + 1) 0 line' gap' := by
        intro failure
        rw [nextIn, hcross]
      have hcount : line + 1 + later.length = line + (line' :: later).length := by
        rw [List.length_cons]
        omega
      rw [hstep, hstep, ← hcount]
      exact ih (line + 1) 0 line' gap'

/-- The tokens in front of the last one are the same if reading breaks off. -/
theorem tokens_breaking {c : Cursor} (h : c.failure = none) (error : ReadError) :
    ∃ ts last, c.tokens = ts ++ [last] ∧
      (c.breaking error).tokens =
        ts ++ [last.brokenOff error (c.line + c.later.length + 1)] := by
  induction hsize : c.size using Nat.strong_induction_on generalizing c with
  | h size ih =>
    have hnext : c.next = nextIn none c.later c.line c.column c.rest .space := by
      rw [next, h]
    rcases nextIn_breaking error c.later c.line c.column c.rest .space with
      ⟨c', head, tail, hnone, hlines, hwhole, hbroken⟩ | ⟨c', gap, hnone, hline, hwhole, hbroken⟩
    · rw [hwhole] at hnext
      -- a token was found, and the failure is not looked at before the last line is over
      have hsame : (c.breaking error).next.1 = c.next.1 := by
        rw [next, breaking, hbroken, hnext]
        rfl
      cases hterminal : c.next.1.isTerminal with
      | true =>
        refine ⟨[], c.next.1, tokens_of_terminal hterminal, ?_⟩
        rw [tokens_of_terminal (by rw [hsame, hterminal]), hsame, hnext, brokenOff_take]
        rfl
      | false =>
        have hbehind : (c.breaking error).next.2 = c.next.2.breaking error := by
          rw [next, breaking, hbroken, hnext]
          rfl
        have hplace : c.next.2.line + c.next.2.later.length = c.line + c.later.length := by
          rw [hnext]
          exact hlines
        have hstill : c.next.2.failure = none := by
          rw [hnext]
          exact hnone
        have hless := c.size_next_lt hterminal
        rw [hsize] at hless
        rcases ih c.next.2.size hless hstill rfl with ⟨ts, last, htokens, hrest⟩
        refine ⟨c.next.1 :: ts, last, ?_, ?_⟩
        · rw [tokens_of_proper hterminal, htokens, List.cons_append]
        · rw [tokens_of_proper (by rw [hsame, hterminal]), hsame, hbehind, hrest, hplace,
            List.cons_append]
    · rw [hwhole] at hnext
      -- the lines are over, and here alone the failure shows
      have hlast : (c.breaking error).next.1 = (c'.breaking error).terminal gap := by
        rw [next, breaking, hbroken]
      refine ⟨[], c'.terminal gap, ?_, ?_⟩
      · rw [tokens_of_terminal (by rw [hnext, isTerminal_terminal]), hnext]
        rfl
      · rw [tokens_of_terminal (by rw [hlast, isTerminal_terminal]), hlast, ← hline,
          brokenOff_terminal hnone]
        rfl

end Cursor

/-! ### Lines of bytes -/

namespace Text

/-- The lines of a text still given as bytes, each with its line end. -/
def byteSegments (bytes : List UInt8) : List (List UInt8) :=
  segmentsBy 10 bytes

theorem head?_encode (cs : List Char) :
    (cs.flatMap String.utf8EncodeChar).head? = some 10 ↔ cs.head? = some '\n' := by
  cases cs with
  | nil => simp
  | cons c cs =>
    rcases List.exists_cons_of_ne_nil (Utf8.encodeChar_ne_nil c) with ⟨b, bs, hbytes⟩
    rw [List.flatMap_cons, hbytes, List.cons_append, List.head?_cons, List.head?_cons,
      Option.some.injEq, Option.some.injEq]
    constructor
    · intro hb
      have hmem : 10 ∈ String.utf8EncodeChar c := by
        rw [hbytes, hb]
        exact List.mem_cons_self
      exact Utf8.eq_of_mem_encodeChar (by decide) hmem
    · rintro rfl
      exact (List.cons.inj hbytes).1.symm

/-- The lines of the bytes of a text are the bytes of its lines. -/
theorem byteLines_encode (cs : List Char) :
    byteLines (cs.flatMap String.utf8EncodeChar) =
      (lines cs).map (·.flatMap String.utf8EncodeChar) := by
  rw [byteLines, lines]
  induction cs with
  | nil => rfl
  | cons c cs ih =>
    -- a line feed and a carriage return are one byte each, and no byte of another character
    rw [List.flatMap_cons]
    by_cases hlf : c = '\n'
    · rw [hlf, show String.utf8EncodeChar '\n' = [10] from rfl, List.singleton_append, linesBy,
        linesBy, if_pos rfl, if_pos rfl, ih]
      rfl
    · by_cases hcr : c = '\r' ∧ cs.head? = some '\n'
      · rcases hcr with ⟨rfl, hhead⟩
        rw [show String.utf8EncodeChar '\r' = [13] from rfl, List.singleton_append, linesBy,
          linesBy, if_neg (by decide : ¬ (13 : UInt8) = 10), if_neg hlf,
          if_pos ⟨rfl, (head?_encode cs).2 hhead⟩, if_pos ⟨rfl, hhead⟩, ih]
      · have hbytes : linesBy 13 10 (String.utf8EncodeChar c ++ cs.flatMap String.utf8EncodeChar) =
            (String.utf8EncodeChar c ++
              (linesBy 13 10 (cs.flatMap String.utf8EncodeChar)).headD []) ::
              (linesBy 13 10 (cs.flatMap String.utf8EncodeChar)).tail := by
          by_cases hc : c = '\r'
          · rw [hc, show String.utf8EncodeChar '\r' = [13] from rfl, List.singleton_append]
            exact linesBy_cons (by decide) fun h => hcr ⟨hc, (head?_encode cs).1 h.2⟩
          · refine linesBy_prepend ?_ (Utf8.encodeChar_ne_nil c) _
            intro b hb
            constructor
            · rintro rfl
              exact hlf (Utf8.eq_of_mem_encodeChar (by decide) hb)
            · rintro rfl
              exact hc (Utf8.eq_of_mem_encodeChar (by decide) hb)
        rw [hbytes, ih, linesBy_cons hlf hcr]
        cases linesBy '\r' '\n' cs with
        | nil => rfl
        | cons line later => rfl

/-- A line end makes no text of bytes that are none. -/
theorem decode_stripBy {line : List UInt8} (h : ¬ Utf8.Valid line) :
    Utf8.decode (stripBy 13 10 line) = none := by
  rw [Utf8.decode_eq_none_iff]
  intro hvalid
  apply h
  rcases stripBy_append 13 10 line with ⟨tail, hline, htail⟩
  rw [hline]
  refine hvalid.append ?_
  rcases htail with rfl | rfl | rfl
  · exact ⟨"", rfl⟩
  · exact ⟨"\n", rfl⟩
  · exact ⟨"\r\n", rfl⟩

end Text

/-! ### Bytes -/

namespace Source

/-- Lines that are decoded in front of others. -/
theorem ofByteLines_append (lines : List (List Char)) (later : List (List UInt8)) :
    ofByteLines (lines.map (·.flatMap String.utf8EncodeChar) ++ later) =
      ⟨lines ++ (ofByteLines later).lines, (ofByteLines later).failure⟩ := by
  induction lines with
  | nil => rfl
  | cons line lines ih =>
    have hdecode : Text.Utf8.decode (line.flatMap String.utf8EncodeChar) = some line :=
      Text.Utf8.decode_eq_some_iff.2 (Text.Utf8.encode_ofList line)
    rw [List.map_cons, List.cons_append, ofByteLines, hdecode, ih]
    rfl

theorem byteLines_encode (s : String) :
    Text.byteLines (Text.Utf8.encode s) =
      (ofString s).lines.map (·.flatMap String.utf8EncodeChar) := by
  have hchars := Text.Utf8.encode_ofList s.toList
  rw [String.ofList_toList] at hchars
  rw [hchars, Text.byteLines_encode]
  rfl

/-- The bytes of a text are the source that the text is. -/
theorem ofBytes_encode (s : String) : ofBytes (Text.Utf8.encode s) = ofString s := by
  have hlines := ofByteLines_append (ofString s).lines []
  rw [List.append_nil, ← byteLines_encode] at hlines
  rw [ofBytes, hlines]
  simp [ofByteLines, ofString, ofChars]

/-- Bytes with a line that is no text: the lines in front of it, as many as there are, and
    then nothing. -/
theorem ofBytes_of_not_valid {bytes bad : List UInt8} {front back : List (List UInt8)}
    (hsegments : Text.byteSegments bytes = front ++ bad :: back)
    (hbad : ¬ Text.Utf8.Valid bad) {s : String} (hs : Text.Utf8.encode s = front.flatten) :
    ofBytes bytes = { ofString s with failure := some .notUtf8 } ∧
      (ofString s).lines.length = front.length := by
  have hfront : (ofString s).lines.map (·.flatMap String.utf8EncodeChar) =
      front.map (Text.stripBy 13 10) := by
    rw [← byteLines_encode, hs, Text.byteLines, Text.linesBy_eq_map_stripBy,
      Text.segmentsBy_flatten hsegments]
  constructor
  · have hlines : Text.byteLines bytes = (ofString s).lines.map (·.flatMap String.utf8EncodeChar) ++
        Text.stripBy 13 10 bad :: back.map (Text.stripBy 13 10) := by
      rw [hfront, Text.byteLines, Text.linesBy_eq_map_stripBy, ← Text.byteSegments, hsegments,
        List.map_append, List.map_cons]
    rw [ofBytes, hlines, ofByteLines_append, ofByteLines, Text.decode_stripBy hbad]
    simp [unreadable]
  · have hlength := congrArg List.length hfront
    rwa [List.length_map, List.length_map] at hlength

/-- The tokens of bytes.  If each line is a text, they are those of the whole text.  If
    `bad` is the first line that is none, they are those of the text `s` in front of it, but
    that the end of `s` or a comment open there gives way to an error at the start of the
    line `bad`. -/
theorem tokens_ofBytes (bytes : List UInt8) :
    ((∀ line ∈ Text.byteSegments bytes, Text.Utf8.Valid line) →
      ∃ s, Text.Utf8.encode s = bytes ∧ (ofBytes bytes).tokens = (ofString s).tokens) ∧
    ∀ front bad back, Text.byteSegments bytes = front ++ bad :: back →
      (∀ line ∈ front, Text.Utf8.Valid line) → ¬ Text.Utf8.Valid bad →
      ∃ s, Text.Utf8.encode s = front.flatten ∧ ∃ ts last, (ofString s).tokens = ts ++ [last] ∧
        (ofBytes bytes).tokens = ts ++ [last.brokenOff .notUtf8 (front.length + 1)] := by
  constructor
  · intro hvalid
    rcases Text.Utf8.valid_flatten hvalid with ⟨s, hs⟩
    rw [Text.byteSegments, Text.flatten_segmentsBy] at hs
    refine ⟨s, hs, ?_⟩
    rw [← hs, ofBytes_encode]
  · intro front bad back hsegments hfront hbad
    rcases Text.Utf8.valid_flatten hfront with ⟨s, hs⟩
    rcases ofBytes_of_not_valid hsegments hbad hs with ⟨hsource, hlength⟩
    rcases Cursor.tokens_breaking (c := .start (ofString s)) rfl .notUtf8 with
      ⟨ts, last, htokens, hbroken⟩
    refine ⟨s, hs, ts, last, htokens, ?_⟩
    have hcount : (Cursor.start (ofString s)).line + (Cursor.start (ofString s)).later.length =
        front.length := by
      rw [← hlength]
      exact Nat.zero_add _
    rw [hcount] at hbroken
    rw [hsource]
    exact hbroken

/-- A comment is open where the second line cannot be read; without that line, all is read. -/
theorem tokens_ofBytes_comment :
    (∃ s, Text.Utf8.encode s = [120, 32, 47, 42, 10] ∧
      (ofBytes [120, 32, 47, 42, 10]).tokens = (ofString s).tokens) ∧
    ∃ s, Text.Utf8.encode s = [120, 32, 47, 42, 10] ∧
      ∃ ts last, (ofString s).tokens = ts ++ [last] ∧
        (ofBytes [120, 32, 47, 42, 10, 121, 255, 10]).tokens =
          ts ++ [last.brokenOff .notUtf8 2] := by
  have hfront : ∀ line ∈ [[120, 32, 47, 42, 10]], Text.Utf8.Valid line := by
    intro line hline
    rw [List.mem_singleton.1 hline]
    exact ⟨"x /*\n", rfl⟩
  have hbad : ¬ Text.Utf8.Valid [121, 255, 10] := by
    rw [← Text.Utf8.decode_eq_none_iff]
    simp [Text.Utf8.decode, Text.Utf8.pieces, Text.Utf8.lead?]
  exact ⟨(tokens_ofBytes _).1 hfront,
    (tokens_ofBytes _).2 [[120, 32, 47, 42, 10]] [121, 255, 10] [] (by decide) hfront hbad⟩

end Source

end Shc
