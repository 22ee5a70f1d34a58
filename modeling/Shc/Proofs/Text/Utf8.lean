import Mathlib.Tactic.IntervalCases
import Shc.Text.Utf8

/-!
# UTF-8

Bytes are decoded exactly if they are the bytes of a text, and then to this text.  A
sequence is a lead byte and as many tail bytes as that asks for, each with six bits of the
code point; the range of the first tail byte rules out what no text is encoded as.
-/

namespace Shc.Text.Utf8

/-! ### Lead bytes -/

/-- What the lead byte of a sequence of two, three or four bytes asks for, by the bits of
    the code point that it has. -/
inductive IsLead : UInt8 → Lead → Prop where
  | two {n : Nat} : 2 ≤ n → n < 32 → IsLead (.ofNat (n + 192)) ⟨1, 0x80, 0xBF, n⟩
  | three {n : Nat} : n < 16 → IsLead (.ofNat (n + 224))
      ⟨2, if n = 0 then 0xA0 else 0x80, if n = 13 then 0x9F else 0xBF, n⟩
  | four {n : Nat} : n < 5 → IsLead (.ofNat (n + 240))
      ⟨3, if n = 0 then 0x90 else 0x80, if n = 4 then 0x8F else 0xBF, n⟩

theorem IsLead.lead? {b : UInt8} {l : Lead} (h : IsLead b l) : ¬ b < 0x80 ∧ lead? b = some l := by
  cases h with
  | @two n hlow hhigh => interval_cases n <;> exact ⟨by decide, rfl⟩
  | @three n hhigh => interval_cases n <;> exact ⟨by decide, rfl⟩
  | @four n hhigh => interval_cases n <;> exact ⟨by decide, rfl⟩

theorem eq_ofNat_of_toNat {b : UInt8} {n : Nat} (h : b.toNat = n) : b = .ofNat n := by
  rw [← h, UInt8.ofNat_toNat]

theorem isLead_of_lead? {b : UInt8} {l : Lead} (h : lead? b = some l) : IsLead b l := by
  unfold lead? at h
  simp only [UInt8.le_iff_toNat_le, ← UInt8.toNat_inj] at h
  simp only [UInt8.reduceToNat] at h
  split_ifs at h with htwo he0 hed hthree hf0 hfour hf4
  · cases h
    have hform := IsLead.two (n := b.toNat - 0xC0) (by omega) (by omega)
    rwa [← eq_ofNat_of_toNat (b := b) (by omega)] at hform
  · cases h
    rw [eq_ofNat_of_toNat he0]
    exact .three (n := 0) (by decide)
  · cases h
    rw [eq_ofNat_of_toNat hed]
    exact .three (n := 13) (by decide)
  · cases h
    have hform := IsLead.three (n := b.toNat - 0xE0) (by omega)
    rwa [← eq_ofNat_of_toNat (b := b) (by omega), if_neg (by omega), if_neg (by omega)] at hform
  · cases h
    rw [eq_ofNat_of_toNat hf0]
    exact .four (n := 0) (by decide)
  · cases h
    have hform := IsLead.four (n := b.toNat - 0xF0) (by omega)
    rwa [← eq_ofNat_of_toNat (b := b) (by omega), if_neg (by omega), if_neg (by omega)] at hform
  · cases h
    rw [eq_ofNat_of_toNat hf4]
    exact .four (n := 4) (by decide)

/-! ### Tail bytes -/

/-- A tail byte adds its six bits. -/
theorem tails_cons {low high : UInt8} {m : Nat} (hlow : low.toNat ≤ m + 128)
    (hhigh : m + 128 ≤ high.toNat) (hm : m < 64) (count bits : Nat) (rest : List UInt8) :
    tails low high (count + 1) bits (.ofNat (m + 128) :: rest) =
      tails 0x80 0xBF count (bits * 64 + m) rest := by
  have hbyte : (UInt8.ofNat (m + 128)).toNat = m + 128 := by
    rw [UInt8.toNat_ofNat']
    omega
  have hbits : (m + 128) % 64 = m := by omega
  rw [tails, hbyte, hbits, if_pos]
  rw [UInt8.le_iff_toNat_le, UInt8.le_iff_toNat_le, hbyte]
  exact ⟨hlow, hhigh⟩

theorem of_tails_succ {low high : UInt8} {count bits v : Nat} {bytes rest : List UInt8}
    (h : tails low high (count + 1) bits bytes = (some v, rest)) (hlow : 128 ≤ low.toNat)
    (hhigh : high.toNat ≤ 191) :
    ∃ m more, m < 64 ∧ low.toNat ≤ m + 128 ∧ m + 128 ≤ high.toNat ∧
      bytes = .ofNat (m + 128) :: more ∧
      tails 0x80 0xBF count (bits * 64 + m) more = (some v, rest) := by
  cases bytes with
  | nil => cases h
  | cons b more =>
    rw [tails] at h
    split at h
    · rename_i hrange
      rw [UInt8.le_iff_toNat_le, UInt8.le_iff_toNat_le] at hrange
      have hbits : b.toNat % 64 = b.toNat - 128 := by omega
      rw [hbits] at h
      refine ⟨b.toNat - 128, more, by omega, by omega, by omega, ?_, h⟩
      rw [← eq_ofNat_of_toNat (b := b) (by omega)]
    · cases h

/-! ### Sequences -/

/-- The bytes of one character and its code point.  No code point has two sequences, and
    surrogates have none. -/
inductive Sequence : List UInt8 → Nat → Prop where
  | one {n : Nat} : n < 128 → Sequence [.ofNat n] n
  | two {n m : Nat} : 2 ≤ n → n < 32 → m < 64 →
      Sequence [.ofNat (n + 192), .ofNat (m + 128)] (n * 64 + m)
  | three {n m k : Nat} : n < 16 → m < 64 → k < 64 → (n = 0 → 32 ≤ m) → (n = 13 → m < 32) →
      Sequence [.ofNat (n + 224), .ofNat (m + 128), .ofNat (k + 128)] ((n * 64 + m) * 64 + k)
  | four {n m k j : Nat} : n < 5 → m < 64 → k < 64 → j < 64 → (n = 0 → 16 ≤ m) →
      (n = 4 → m < 16) →
      Sequence [.ofNat (n + 240), .ofNat (m + 128), .ofNat (k + 128), .ofNat (j + 128)]
        (((n * 64 + m) * 64 + k) * 64 + j)

theorem pieces_lead {b : UInt8} {l : Lead} (h : IsLead b l) (rest : List UInt8) :
    pieces (b :: rest) =
      (tails l.low l.high l.count l.bits rest).1.map Char.ofNat ::
        pieces (tails l.low l.high l.count l.bits rest).2 := by
  rcases h.lead? with ⟨hlarge, hlead⟩
  rw [pieces, if_neg hlarge, hlead]

/-- A lower bound of the first tail byte that only one lead byte raises. -/
theorem low_le {n k m : Nat} {low : UInt8} (h : n = k → low.toNat ≤ m + 128) :
    (if n = k then low else 0x80 : UInt8).toNat ≤ m + 128 := by
  split
  · rename_i heq
    exact h heq
  · exact Nat.le_add_left 128 m

/-- An upper bound of the first tail byte that only one lead byte lowers. -/
theorem le_high {n k m : Nat} {high : UInt8} (h : n = k → m + 128 ≤ high.toNat) (hm : m < 64) :
    m + 128 ≤ (if n = k then high else 0xBF : UInt8).toNat := by
  split
  · rename_i heq
    exact h heq
  · show m + 128 ≤ 191
    omega

/-- A tail byte that is not the first one can be any. -/
theorem tails_cons_any {m : Nat} (hm : m < 64) (count bits : Nat) (rest : List UInt8) :
    tails 0x80 0xBF (count + 1) bits (.ofNat (m + 128) :: rest) =
      tails 0x80 0xBF count (bits * 64 + m) rest := by
  have hhigh : m + 128 ≤ 191 := by omega
  exact tails_cons (Nat.le_add_left 128 m) hhigh hm count bits rest

/-- A sequence is read as its character. -/
theorem Sequence.pieces {bs : List UInt8} {v : Nat} (h : Sequence bs v) (rest : List UInt8) :
    Utf8.pieces (bs ++ rest) = some (Char.ofNat v) :: Utf8.pieces rest := by
  cases h with
  | one hv =>
    have hbyte : (UInt8.ofNat v).toNat = v := by
      rw [UInt8.toNat_ofNat']
      omega
    rw [List.singleton_append, Utf8.pieces, if_pos, hbyte]
    rw [UInt8.lt_iff_toNat_lt, hbyte]
    exact hv
  | @two n m hlow hhigh hm =>
    simp only [List.cons_append, List.nil_append]
    rw [pieces_lead (.two hlow hhigh), tails_cons_any hm]
    rfl
  | @three n m k hn hm hk hlow hhigh =>
    simp only [List.cons_append, List.nil_append]
    rw [pieces_lead (.three hn)]
    dsimp only
    rw [tails_cons (low_le fun h => ?_) (le_high (fun h => ?_) hm) hm, tails_cons_any hk]
    · rfl
    · have hm := hlow h
      show 160 ≤ m + 128
      omega
    · have hm := hhigh h
      show m + 128 ≤ 159
      omega
  | @four n m k j hn hm hk hj hlow hhigh =>
    simp only [List.cons_append, List.nil_append]
    rw [pieces_lead (.four hn)]
    dsimp only
    rw [tails_cons (low_le fun h => ?_) (le_high (fun h => ?_) hm) hm, tails_cons_any hk,
      tails_cons_any hj]
    · rfl
    · have hm := hlow h
      show 144 ≤ m + 128
      omega
    · have hm := hhigh h
      show m + 128 ≤ 143
      omega

theorem of_tails_any {count bits v : Nat} {bytes rest : List UInt8}
    (h : tails 0x80 0xBF (count + 1) bits bytes = (some v, rest)) :
    ∃ m more, m < 64 ∧ bytes = .ofNat (m + 128) :: more ∧
      tails 0x80 0xBF count (bits * 64 + m) more = (some v, rest) := by
  rcases of_tails_succ h (Nat.le_refl 128) (Nat.le_refl 191) with ⟨m, more, hm, -, -, hmore⟩
  exact ⟨m, more, hm, hmore⟩

/-- The tail bytes behind a lead byte complete a sequence. -/
theorem IsLead.sequence {b : UInt8} {l : Lead} (h : IsLead b l) {rest more : List UInt8} {v : Nat}
    (htails : tails l.low l.high l.count l.bits rest = (some v, more)) :
    ∃ bs, b :: rest = bs ++ more ∧ Sequence bs v := by
  cases h with
  | @two n hlow hhigh =>
    rcases of_tails_any htails with ⟨m, tail, hm, rfl, hend⟩
    cases hend
    exact ⟨_, rfl, .two hlow hhigh hm⟩
  | @three n hn =>
    rcases of_tails_succ htails (by dsimp only; split <;> decide) (by dsimp only; split <;> decide)
      with ⟨m, tail, hm, hlow, hhigh, rfl, hmore⟩
    rcases of_tails_any hmore with ⟨k, tail, hk, rfl, hend⟩
    cases hend
    refine ⟨_, rfl, .three hn hm hk ?_ ?_⟩
    · rintro rfl
      have hlow : 160 ≤ m + 128 := hlow
      omega
    · rintro rfl
      have hhigh : m + 128 ≤ 159 := hhigh
      omega
  | @four n hn =>
    rcases of_tails_succ htails (by dsimp only; split <;> decide) (by dsimp only; split <;> decide)
      with ⟨m, tail, hm, hlow, hhigh, rfl, hmore⟩
    rcases of_tails_any hmore with ⟨k, tail, hk, rfl, hlast⟩
    rcases of_tails_any hlast with ⟨j, tail, hj, rfl, hend⟩
    cases hend
    refine ⟨_, rfl, .four hn hm hk hj ?_ ?_⟩
    · rintro rfl
      have hlow : 144 ≤ m + 128 := hlow
      omega
    · rintro rfl
      have hhigh : m + 128 ≤ 143 := hhigh
      omega

/-- What is read as a character is a sequence of it. -/
theorem of_pieces_cons {b : UInt8} {rest : List UInt8} {c : Char} {ps : List (Option Char)}
    (h : pieces (b :: rest) = some c :: ps) :
    ∃ bs v more, b :: rest = bs ++ more ∧ Sequence bs v ∧ c = Char.ofNat v ∧ ps = pieces more := by
  rw [pieces] at h
  split at h
  · rename_i hsmall
    cases h
    rw [UInt8.lt_iff_toNat_lt] at hsmall
    have hone := Sequence.one hsmall
    rw [UInt8.ofNat_toNat] at hone
    exact ⟨[b], b.toNat, rest, rfl, hone, rfl, rfl⟩
  · cases hlead : lead? b with
    | none =>
      rw [hlead] at h
      cases h
    | some l =>
      rw [hlead] at h
      rcases List.cons.inj h with ⟨hfirst, hps⟩
      rcases Option.map_eq_some_iff.1 hfirst with ⟨v, hv, hc⟩
      rcases (isLead_of_lead? hlead).sequence (Prod.ext hv rfl) with ⟨bs, hbytes, hbs⟩
      exact ⟨bs, v, _, hbytes, hbs, hc.symm, hps.symm⟩

/-! ### Texts -/

theorem Sequence.isValidChar {bs : List UInt8} {v : Nat} (h : Sequence bs v) : v.isValidChar := by
  unfold Nat.isValidChar
  cases h with
  | one => omega
  | two => omega
  | three => omega
  | four => omega

/-- A code point has no other sequence than its encoding. -/
theorem Sequence.eq_encodeChar {bs : List UInt8} {v : Nat} (h : Sequence bs v) :
    bs = String.utf8EncodeChar (Char.ofNat v) := by
  have hv : (Char.ofNat v).val.toNat = v := by
    rw [Char.ofNat, dif_pos h.isValidChar]
    rfl
  unfold String.utf8EncodeChar
  rw [hv]
  cases h with
  | one hn => exact (if_pos (by omega)).symm
  | @two n m hlow hhigh hm =>
    have hn : (n * 64 + m) / 64 % 32 = n := by omega
    have hlast : (n * 64 + m) % 64 = m := by omega
    dsimp only
    rw [if_neg (by omega), if_pos (by omega), hn, hlast]
  | @three n m k hn hm hk hlow hhigh =>
    have hfirst : ((n * 64 + m) * 64 + k) / 4096 % 16 = n := by omega
    have hsecond : ((n * 64 + m) * 64 + k) / 64 % 64 = m := by omega
    have hlast : ((n * 64 + m) * 64 + k) % 64 = k := by omega
    dsimp only
    rw [if_neg (by omega), if_neg (by omega), if_pos (by omega), hfirst, hsecond, hlast]
  | @four n m k j hn hm hk hj hlow hhigh =>
    have hfirst : (((n * 64 + m) * 64 + k) * 64 + j) / 262144 % 8 = n := by omega
    have hsecond : (((n * 64 + m) * 64 + k) * 64 + j) / 4096 % 64 = m := by omega
    have hthird : (((n * 64 + m) * 64 + k) * 64 + j) / 64 % 64 = k := by omega
    have hlast : (((n * 64 + m) * 64 + k) * 64 + j) % 64 = j := by omega
    dsimp only
    rw [if_neg (by omega), if_neg (by omega), if_neg (by omega), hfirst, hsecond, hthird, hlast]

theorem Sequence.ne_nil {bs : List UInt8} {v : Nat} (h : Sequence bs v) : bs ≠ [] := by
  cases h <;> exact List.cons_ne_nil _ _

/-- A byte below 128 is a code point of its own and part of no longer sequence. -/
theorem Sequence.eq_toNat_of_mem {bs : List UInt8} {v : Nat} (h : Sequence bs v) {b : UInt8}
    (hb : b < 0x80) (hmem : b ∈ bs) : v = b.toNat := by
  have hbyte : ∀ n, 128 ≤ n → n < 256 → b ≠ .ofNat n := by
    rintro n hlow hhigh rfl
    rw [UInt8.lt_iff_toNat_lt, UInt8.toNat_ofNat'] at hb
    simp only [UInt8.reduceToNat] at hb
    omega
  cases h with
  | one hn =>
    rw [List.mem_singleton.1 hmem, UInt8.toNat_ofNat']
    omega
  | two hlow hhigh hm =>
    simp only [List.mem_cons, List.not_mem_nil, or_false] at hmem
    rcases hmem with h | h <;> exact absurd h (hbyte _ (by omega) (by omega))
  | three hn hm hk hlow hhigh =>
    simp only [List.mem_cons, List.not_mem_nil, or_false] at hmem
    rcases hmem with h | h | h <;> exact absurd h (hbyte _ (by omega) (by omega))
  | four hn hm hk hj hlow hhigh =>
    simp only [List.mem_cons, List.not_mem_nil, or_false] at hmem
    rcases hmem with h | h | h | h <;> exact absurd h (hbyte _ (by omega) (by omega))

theorem sequence_encodeChar (c : Char) : Sequence (String.utf8EncodeChar c) c.toNat := by
  have hvalid : c.toNat < 0xD800 ∨ 0xDFFF < c.toNat ∧ c.toNat < 0x110000 := c.valid
  unfold String.utf8EncodeChar
  rw [show c.val.toNat = c.toNat from rfl]
  generalize c.toNat = v at hvalid
  dsimp only
  split_ifs with hone htwo hthree
  · exact .one (by omega)
  · have hform : Sequence _ (v / 64 % 32 * 64 + v % 64) :=
      .two (by omega) (by omega) (by omega)
    rwa [show v / 64 % 32 * 64 + v % 64 = v by omega] at hform
  · have hform : Sequence _ ((v / 4096 % 16 * 64 + v / 64 % 64) * 64 + v % 64) :=
      .three (by omega) (by omega) (by omega) (by omega) (by omega)
    rwa [show (v / 4096 % 16 * 64 + v / 64 % 64) * 64 + v % 64 = v by omega] at hform
  · have hform : Sequence _
        (((v / 262144 % 8 * 64 + v / 4096 % 64) * 64 + v / 64 % 64) * 64 + v % 64) :=
      .four (by omega) (by omega) (by omega) (by omega) (by omega) (by omega)
    rwa [show ((v / 262144 % 8 * 64 + v / 4096 % 64) * 64 + v / 64 % 64) * 64 + v % 64 = v by
      omega] at hform

theorem encodeChar_ne_nil (c : Char) : String.utf8EncodeChar c ≠ [] :=
  (sequence_encodeChar c).ne_nil

theorem eq_of_mem_encodeChar {c : Char} {b : UInt8} (hb : b < 0x80)
    (h : b ∈ String.utf8EncodeChar c) : c = Char.ofNat b.toNat := by
  rw [← (sequence_encodeChar c).eq_toNat_of_mem hb h, Char.ofNat_toNat]

theorem pieces_encodeChar (c : Char) (rest : List UInt8) :
    pieces (String.utf8EncodeChar c ++ rest) = some c :: pieces rest := by
  rw [(sequence_encodeChar c).pieces, Char.ofNat_toNat]

theorem encode_ofList (cs : List Char) :
    encode (String.ofList cs) = cs.flatMap String.utf8EncodeChar := by
  simp [encode, String.toUTF8, List.utf8Encode]

theorem mapM_id_eq_some {ps : List (Option Char)} {cs : List Char} :
    ps.mapM id = some cs ↔ ps = cs.map some := by
  induction ps generalizing cs with
  | nil => cases cs <;> simp
  | cons p ps ih =>
    rw [List.mapM_cons]
    cases p with
    | none => cases cs <;> simp
    | some c =>
      cases cs with
      | nil => simp [Option.bind_eq_some_iff]
      | cons d cs =>
        simp only [id_eq, Option.pure_def, Option.bind_eq_bind, Option.bind_some,
          Option.bind_eq_some_iff, Option.some.injEq, List.cons.injEq, List.map_cons]
        constructor
        · rintro ⟨cs', hps, rfl, rfl⟩
          exact ⟨rfl, ih.1 hps⟩
        · rintro ⟨rfl, hps⟩
          exact ⟨cs, ih.2 hps, rfl, rfl⟩

theorem pieces_cons_ne_nil (b : UInt8) (rest : List UInt8) : pieces (b :: rest) ≠ [] := by
  rw [pieces]
  split
  · exact List.cons_ne_nil _ _
  · split
    · exact List.cons_ne_nil _ _
    · exact List.cons_ne_nil _ _

theorem pieces_eq_iff {bytes : List UInt8} {cs : List Char} :
    pieces bytes = cs.map some ↔ bytes = cs.flatMap String.utf8EncodeChar := by
  constructor
  · intro h
    induction cs generalizing bytes with
    | nil =>
      cases bytes with
      | nil => rfl
      | cons b rest => exact absurd h (pieces_cons_ne_nil b rest)
    | cons c cs ih =>
      cases bytes with
      | nil =>
        rw [pieces] at h
        cases h
      | cons b rest =>
        rcases of_pieces_cons h with ⟨bs, v, more, hbytes, hbs, rfl, hmore⟩
        rw [hbytes, hbs.eq_encodeChar, ih hmore.symm]
        rfl
  · rintro rfl
    induction cs with
    | nil =>
      rw [List.flatMap_nil, pieces]
      rfl
    | cons c cs ih => rw [List.flatMap_cons, pieces_encodeChar, ih, List.map_cons]

/-- Bytes are decoded to a text exactly if they are its encoding. -/
theorem decode_eq_some_iff {bytes : List UInt8} {cs : List Char} :
    decode bytes = some cs ↔ encode (String.ofList cs) = bytes := by
  rw [decode, mapM_id_eq_some, pieces_eq_iff, encode_ofList]
  exact eq_comm

/-- The bytes are those of some text. -/
def Valid (bytes : List UInt8) : Prop :=
  ∃ s : String, encode s = bytes

theorem decode_eq_none_iff {bytes : List UInt8} : decode bytes = none ↔ ¬ Valid bytes := by
  constructor
  · rintro hdecode ⟨s, rfl⟩
    have hsome : decode (encode s) = some s.toList :=
      decode_eq_some_iff.2 (by rw [String.ofList_toList])
    rw [hsome] at hdecode
    cases hdecode
  · intro hvalid
    cases hdecode : decode bytes with
    | none => rfl
    | some cs => exact absurd ⟨String.ofList cs, decode_eq_some_iff.1 hdecode⟩ hvalid

theorem Valid.append {front back : List UInt8} (hfront : Valid front) (hback : Valid back) :
    Valid (front ++ back) := by
  rcases hfront with ⟨s, rfl⟩
  rcases hback with ⟨t, rfl⟩
  refine ⟨s ++ t, ?_⟩
  have hchars : ∀ u : String, encode u = u.toList.flatMap String.utf8EncodeChar := by
    intro u
    rw [← encode_ofList, String.ofList_toList]
  rw [hchars, hchars, hchars, String.toList_append, List.flatMap_append]

/-- Texts one after the other make a text. -/
theorem valid_flatten {parts : List (List UInt8)} (h : ∀ part ∈ parts, Valid part) :
    Valid parts.flatten := by
  induction parts with
  | nil => exact ⟨"", rfl⟩
  | cons part parts ih =>
    rcases List.forall_mem_cons.1 h with ⟨hpart, hparts⟩
    exact hpart.append (ih hparts)

end Shc.Text.Utf8
