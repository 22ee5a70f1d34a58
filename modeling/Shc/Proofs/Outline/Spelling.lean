import Shc.Proofs.Lexing.Token
import Shc.Text.Quoted

/-!
# Spellings are told apart

Different numbers have different digits, and different texts are quoted differently,
whatever follows the closing mark.  The spellings of characters form a prefix code: a
character is spelled by itself, by a backslash and a letter, or by its code point, and
the first two characters say which.
-/

namespace Shc.Text

/-! ### Numbers -/

theorem digitChar_inj {m n : Nat} (hm : m < 16) (hn : n < 16)
    (h : Nat.digitChar m = Nat.digitChar n) : m = n := by
  have hall : ∀ m < 16, ∀ n < 16, Nat.digitChar m = Nat.digitChar n → m = n := by decide
  exact hall m hm n hn h

theorem digits_of_lt {base n : Nat} (h : n < base) : digits base n = [Nat.digitChar n] := by
  rw [digits, if_pos (.inr h)]

theorem digits_of_le {base n : Nat} (hbase : 2 ≤ base) (h : base ≤ n) :
    digits base n = digits base (n / base) ++ [Nat.digitChar (n % base)] := by
  rw [digits, if_neg (by omega)]

theorem digits_ne_singleton {base n : Nat} (hbase : 2 ≤ base) (h : base ≤ n) (c : Char) :
    digits base n ≠ [c] := by
  intro hc
  rw [digits_of_le hbase h, List.append_eq_singleton_iff] at hc
  rcases hc with hnil | hcons
  · exact digits_ne_nil _ hnil.1
  · exact List.cons_ne_nil _ _ hcons.2

theorem digits_inj {base : Nat} (hbase : 2 ≤ base) (hle : base ≤ 16) {m n : Nat}
    (h : digits base m = digits base n) : m = n := by
  induction m using Nat.strongRecOn generalizing n with
  | _ m ih =>
    rcases Nat.lt_or_ge m base with hm | hm
    · rcases Nat.lt_or_ge n base with hn | hn
      · rw [digits_of_lt hm, digits_of_lt hn] at h
        exact digitChar_inj (by omega) (by omega) (List.singleton_inj.1 h)
      · rw [digits_of_lt hm] at h
        exact absurd h.symm (digits_ne_singleton hbase hn _)
    · rcases Nat.lt_or_ge n base with hn | hn
      · rw [digits_of_lt hn] at h
        exact absurd h (digits_ne_singleton hbase hm _)
      · rw [digits_of_le hbase hm, digits_of_le hbase hn] at h
        have hparts := List.append_inj' h rfl
        have hhigh : m / base = n / base :=
          ih _ (Nat.div_lt_self (by omega) (by omega)) hparts.1
        have hm16 : m % base < 16 := Nat.lt_of_lt_of_le (Nat.mod_lt m (by omega)) hle
        have hn16 : n % base < 16 := Nat.lt_of_lt_of_le (Nat.mod_lt n (by omega)) hle
        have hlow : m % base = n % base := digitChar_inj hm16 hn16 (List.singleton_inj.1 hparts.2)
        rw [← Nat.div_add_mod m base, ← Nat.div_add_mod n base, hhigh, hlow]

theorem digitChar_ne_brace {n : Nat} (h : n < 16) : Nat.digitChar n ≠ '\x7d' := by
  have hall : ∀ n < 16, Nat.digitChar n ≠ '\x7d' := by decide
  exact hall n h

theorem not_brace_of_mem_digits (n : Nat) : ∀ c ∈ digits 16 n, c ≠ '\x7d' := by
  induction n using Nat.strongRecOn with
  | _ n ih =>
    intro c hc
    by_cases hn : n < 16
    · rw [digits_of_lt hn] at hc
      rw [List.mem_singleton.1 hc]
      exact digitChar_ne_brace hn
    · rw [digits_of_le (by omega) (by omega)] at hc
      rcases List.mem_append.1 hc with hmem | hmem
      · exact ih (n / 16) (by omega) c hmem
      · rw [List.mem_singleton.1 hmem]
        exact digitChar_ne_brace (by omega)

theorem decimal_inj {m n : Nat} (h : decimal m = decimal n) : m = n :=
  digits_inj (by omega) (by omega) (String.ofList_injective h)

theorem decimal_ne_minus (m : Nat) (text : String) : decimal m ≠ "-" ++ text := by
  intro h
  have hmem : '-' ∈ digits 10 m := by
    have hlist : digits 10 m = '-' :: text.toList := by
      rw [← String.toList_ofList (l := digits 10 m), ← decimal, h, String.toList_append]
      rfl
    rw [hlist]
    exact List.mem_cons_self
  exact absurd (isDigit_digits m '-' hmem) (by decide)

theorem decimalInt_inj {m n : Int} (h : decimalInt m = decimalInt n) : m = n := by
  cases m with
  | ofNat m =>
    cases n with
    | ofNat n => rw [decimal_inj h]
    | negSucc n => exact absurd h (decimal_ne_minus m _)
  | negSucc m =>
    cases n with
    | ofNat n => exact absurd h.symm (decimal_ne_minus n _)
    | negSucc n =>
      have hsucc : m + 1 = n + 1 := decimal_inj ((String.append_right_inj "-").1 h)
      rw [Nat.succ.inj hsucc]

/-! ### Quoted texts -/

/-- The characters that are spelled by a letter, with their letters. -/
def letters : List (Char × Char) :=
  [('\x00', '0'), ('\t', 't'), ('\r', 'r'), ('\n', 'n'), ('\\', '\\'), ('\x22', '\x22')]

theorem letters_inj {c c' d : Char} (hc : (c, d) ∈ letters) (hc' : (c', d) ∈ letters) : c = c' := by
  simp only [letters, List.mem_cons, Prod.mk.injEq, List.not_mem_nil, or_false] at hc hc'
  grind

theorem letters_ne_u {c : Char} : (c, 'u') ∉ letters := by
  simp [letters]

/-- How a character is spelled inside of double quote marks. -/
theorem spelled_cases (c : Char) :
    (spelled '\x22' c = [c] ∧ c ≠ '\\' ∧ c ≠ '\x22') ∨
    (∃ d, spelled '\x22' c = ['\\', d] ∧ (c, d) ∈ letters) ∨
    spelled '\x22' c = '\\' :: 'u' :: '\x7b' :: (digits 16 c.toNat ++ ['\x7d']) := by
  unfold spelled
  split_ifs with h0 ht hr hn hb hm hu
  · exact .inr (.inl ⟨'0', rfl, by simp [letters, h0]⟩)
  · exact .inr (.inl ⟨'t', rfl, by simp [letters, ht]⟩)
  · exact .inr (.inl ⟨'r', rfl, by simp [letters, hr]⟩)
  · exact .inr (.inl ⟨'n', rfl, by simp [letters, hn]⟩)
  · exact .inr (.inl ⟨'\\', rfl, by simp [letters, hb]⟩)
  · exact .inr (.inl ⟨'\x22', rfl, by simp [letters, hm]⟩)
  · exact .inr (.inr rfl)
  · exact .inl ⟨rfl, hb, hm⟩

/-- The spelling of a character does not start with the mark. -/
theorem spelled_append_ne (c : Char) (s t : List Char) : spelled '\x22' c ++ s ≠ '\x22' :: t := by
  rcases spelled_cases c with ⟨h, -, hmark⟩ | ⟨d, h, -⟩ | h
  · rw [h]
    exact fun heq => hmark (List.cons.inj heq).1
  · rw [h]
    exact fun heq => absurd (List.cons.inj heq).1 (by decide)
  · rw [h]
    exact fun heq => absurd (List.cons.inj heq).1 (by decide)

theorem digits_brace_inj {m n : Nat} {s t : List Char}
    (h : digits 16 m ++ '\x7d' :: s = digits 16 n ++ '\x7d' :: t) : m = n ∧ s = t := by
  have htake : ∀ k rest, (digits 16 k ++ '\x7d' :: rest).takeWhile (· ≠ '\x7d') = digits 16 k :=
    fun k rest => takeWhile_append_headIn (by simpa using not_brace_of_mem_digits k)
      (headIn_cons (by decide) rest)
  have hdigits : digits 16 m = digits 16 n := by rw [← htake m s, h, htake n t]
  rw [hdigits] at h
  exact ⟨digits_inj (by omega) (by omega) hdigits, (List.cons.inj (List.append_cancel_left h)).2⟩

theorem spelled_append_inj {c d : Char} {s t : List Char}
    (h : spelled '\x22' c ++ s = spelled '\x22' d ++ t) : c = d ∧ s = t := by
  rcases spelled_cases c with ⟨hc, hback, -⟩ | ⟨x, hc, hx⟩ | hc <;>
    rcases spelled_cases d with ⟨hd, hback', -⟩ | ⟨y, hd, hy⟩ | hd <;>
      rw [hc, hd] at h
  · exact List.cons.inj h
  · exact absurd (List.cons.inj h).1 hback
  · exact absurd (List.cons.inj h).1 hback
  · exact absurd (List.cons.inj h).1.symm hback'
  · have htail := List.cons.inj (List.cons.inj h).2
    rw [htail.1] at hx
    exact ⟨letters_inj hx hy, htail.2⟩
  · rw [(List.cons.inj (List.cons.inj h).2).1] at hx
    exact absurd hx letters_ne_u
  · exact absurd (List.cons.inj h).1.symm hback'
  · rw [← (List.cons.inj (List.cons.inj h).2).1] at hy
    exact absurd hy letters_ne_u
  · simp only [List.cons_append, List.append_assoc, List.nil_append, List.cons.injEq,
      true_and] at h
    have hparts := digits_brace_inj h
    exact ⟨Char.toNat_inj.1 hparts.1, hparts.2⟩

theorem spelledAll_append_inj {cs ds s t : List Char}
    (h : cs.flatMap (spelled '\x22') ++ '\x22' :: s = ds.flatMap (spelled '\x22') ++ '\x22' :: t) :
    cs = ds ∧ s = t := by
  induction cs generalizing ds with
  | nil =>
    cases ds with
    | nil => exact ⟨rfl, (List.cons.inj h).2⟩
    | cons d ds =>
      rw [List.flatMap_cons, List.append_assoc] at h
      exact absurd h.symm (spelled_append_ne d _ _)
  | cons c cs ih =>
    rw [List.flatMap_cons, List.append_assoc] at h
    cases ds with
    | nil => exact absurd h (spelled_append_ne c _ _)
    | cons d ds =>
      rw [List.flatMap_cons, List.append_assoc] at h
      have hhead := spelled_append_inj h
      have htail := ih hhead.2
      exact ⟨congr (congrArg List.cons hhead.1) htail.1, htail.2⟩

/-- What stands between two marks is determined by any text that goes on behind them. -/
theorem quotedWith_append_inj {cs ds s t : List Char}
    (h : quotedWith '\x22' cs ++ s = quotedWith '\x22' ds ++ t) : cs = ds ∧ s = t := by
  simp only [quotedWith, List.cons_append, List.append_assoc, List.nil_append, List.cons.injEq,
    true_and] at h
  exact spelledAll_append_inj h

end Shc.Text
