import Demarcate.Json.Literal
import Demarcate.Json.Printer
import Mathlib.Data.List.TakeDrop
/-!
# Tokens — strings and integers are read back

A string that was written between quotation marks is scanned to itself, whatever stands behind it (`scanString_quote`).
An integer of 64 bits is scanned to itself if the text behind it cannot go on with it (`scanNumber_print`): no digit, no
point and no exponent.
-/
namespace Demarcate
namespace Json

/-! ## Strings -/

theorem hexValue?_hexDigit : ∀ n < 16, hexValue? (hexDigit n) = some n := by decide

theorem hex4?_hexDigit {n : Nat} (h : n < 256) : hex4? '0' '0' (hexDigit (n / 16)) (hexDigit (n % 16)) = some n := by
  have hzero : hexValue? '0' = some 0 := by decide
  unfold hex4?
  rw [hzero, hexValue?_hexDigit (n / 16) (by omega), hexValue?_hexDigit (n % 16) (by omega)]
  show some (((0 * 16 + 0) * 16 + n / 16) * 16 + n % 16) = some n
  rw [Option.some.injEq]
  omega

/-- A character that is not escaped stands for itself. -/
theorem scanString_plain {c : Char} (hquote : c ≠ '"') (hslash : c ≠ '\\') (hlow : 32 ≤ c.toNat)
    (acc rest : List Char) : scanString acc none none (c :: rest) = scanString (c :: acc) none none rest := by
  rw [scanString]
  · rw [if_neg (by omega)]
    rfl
  · exact hquote
  · exact fun _ _ _ _ _ h => absurd h hslash
  · exact fun h => absurd h hslash
  · exact fun _ _ h => absurd h hslash

/-- An escape of one letter stands for the character that it names. -/
theorem scanString_letter {c x : Char} (hletter : c ≠ 'u') (hx : unescape? c = some x) (acc rest : List Char) :
    scanString acc none none ('\\' :: c :: rest) = scanString (x :: acc) none none rest := by
  rw [scanString]
  · rw [if_neg hletter, hx]
    rfl
  · exact fun _ _ _ _ _ h => absurd h hletter

theorem scanString_control {c : Char} (h : c.toNat < 32) (acc rest : List Char) :
    scanString acc none none ('\\' :: 'u' :: '0' :: '0' :: hexDigit (c.toNat / 16) :: hexDigit (c.toNat % 16) :: rest) =
      scanString (c :: acc) none none rest := by
  have hhigh : isHighSurrogate c.toNat = false := by
    unfold isHighSurrogate
    rw [decide_eq_false (by omega), Bool.false_and]
  have hlow : isLowSurrogate c.toNat = false := by
    unfold isLowSurrogate
    rw [decide_eq_false (by omega), Bool.false_and]
  rw [scanString, hex4?_hexDigit (by omega)]
  simp only [hhigh, hlow, Bool.false_eq_true, if_false]
  rw [Char.ofNat_toNat]

/-- **A character is read back from what stands for it in a string.** -/
theorem scanString_escapeChar (c : Char) (acc rest : List Char) :
    scanString acc none none (escapeChar c ++ rest) = scanString (c :: acc) none none rest := by
  unfold escapeChar
  split
  · rename_i h
    subst h
    exact scanString_letter (c := '"') (by decide) (by decide) acc rest
  rename_i hquote
  split
  · rename_i h
    subst h
    exact scanString_letter (c := '\\') (by decide) (by decide) acc rest
  rename_i hslash
  split
  · rename_i h
    subst h
    exact scanString_letter (c := 'n') (by decide) (by decide) acc rest
  split
  · rename_i h
    subst h
    exact scanString_letter (c := 'r') (by decide) (by decide) acc rest
  split
  · rename_i h
    subst h
    exact scanString_letter (c := 't') (by decide) (by decide) acc rest
  split
  · rename_i h
    subst h
    exact scanString_letter (c := 'b') (by decide) (by decide) acc rest
  split
  · rename_i h
    subst h
    exact scanString_letter (c := 'f') (by decide) (by decide) acc rest
  split
  · rename_i hlow
    exact scanString_control hlow acc rest
  · rename_i hlow
    exact scanString_plain hquote hslash (Nat.le_of_not_lt hlow) acc rest

theorem scanString_escaped (cs acc rest : List Char) :
    scanString acc none none (cs.flatMap escapeChar ++ '"' :: rest) =
      .token (.ok (String.ofList (acc.reverse ++ cs))) rest := by
  induction cs generalizing acc with
  | nil =>
    rw [List.flatMap_nil, List.nil_append, List.append_nil, scanString]
  | cons c cs ih =>
    rw [List.flatMap_cons, List.append_assoc, scanString_escapeChar, ih, List.reverse_cons, List.append_assoc]
    rfl

/-- **A string is read back from its text.** -/
theorem scanString_quote (s : String) (rest : List Char) :
    ∃ text, quote s ++ rest = '"' :: text ∧ scanString [] none none text = .token (.ok s) rest := by
  refine ⟨s.toList.flatMap escapeChar ++ '"' :: rest, ?_, ?_⟩
  · unfold quote
    rw [List.cons_append, List.append_assoc]
    rfl
  · rw [scanString_escaped, List.reverse_nil, List.nil_append, String.ofList_toList]

/-! ## Integers -/

/-- The text cannot go on with a number that ends before it. -/
def Ends (rest : List Char) : Prop :=
  ∀ c, rest.head? = some c → c.isDigit = false ∧ c ≠ '.' ∧ c ≠ 'e' ∧ c ≠ 'E'

theorem Ends.nil : Ends [] := fun _ h => by cases h

theorem Ends.cons {c : Char} (hdigit : c.isDigit = false) (hpoint : c ≠ '.') (hlower : c ≠ 'e') (hupper : c ≠ 'E')
    (rest : List Char) : Ends (c :: rest) := fun c' h => by
  obtain rfl : c = c' := by simpa using h
  exact ⟨hdigit, hpoint, hlower, hupper⟩

/-- The digits of a number that fits are all taken. -/
theorem takeDigits_eq : ∀ (ds : List Char) (n : Nat), Nat.ofDigitChars 10 ds n ≤ greatestWord →
    takeDigits n ds = (Nat.ofDigitChars 10 ds n, ds.length, 0)
  | [], _, _ => rfl
  | d :: ds, n, h => by
    have hstep : Nat.ofDigitChars 10 (d :: ds) n = Nat.ofDigitChars 10 ds (n * 10 + digitValue d) := by
      unfold Nat.ofDigitChars digitValue
      rw [List.foldl_cons, Nat.mul_comm]
    have hle : n * 10 + digitValue d ≤ Nat.ofDigitChars 10 ds (n * 10 + digitValue d) := le_ofDigitChars ds _
    rw [hstep] at h ⊢
    unfold takeDigits
    rw [if_neg (by omega), takeDigits_eq ds _ h]
    rfl
where
  le_ofDigitChars : ∀ (ds : List Char) (n : Nat), n ≤ Nat.ofDigitChars 10 ds n
    | [], n => Nat.le_refl n
    | d :: ds, n => by
      have := le_ofDigitChars ds (10 * n + (d.toNat - '0'.toNat))
      show n ≤ Nat.ofDigitChars 10 ds (10 * n + (d.toNat - '0'.toNat))
      omega

theorem isDigit_of_mem {n : Nat} : ∀ c ∈ Nat.toDigits 10 n, c.isDigit = true :=
  fun _ h => Nat.isDigit_of_mem_toDigits (by decide) (by decide) h

/-- A decimal starts with a zero only if it is that zero. -/
theorem toDigits_zero_head {n : Nat} {ds : List Char} (h : Nat.toDigits 10 n = '0' :: ds) : ds = [] := by
  induction n using Nat.strongRecOn generalizing ds with
  | ind n ih =>
    by_cases hn : n < 10
    · rw [Nat.toDigits_of_lt_base hn, List.cons.injEq] at h
      exact h.2.symm
    · rw [Nat.toDigits_of_base_le (by decide) (by omega)] at h
      -- the digits of `n / 10` are the zero alone, so `n` is below ten
      cases hq : Nat.toDigits 10 (n / 10) with
      | nil => exact absurd hq Nat.toDigits_ne_nil
      | cons q qs =>
        rw [hq, List.cons_append, List.cons.injEq] at h
        obtain rfl := h.1
        obtain rfl := ih (n / 10) (by omega) hq
        have hvalue := Nat.ofDigitChars_toDigits (b := 10) (n := n / 10) (by decide) (by decide)
        rw [hq] at hvalue
        have : 0 = n / 10 := hvalue
        omega

theorem span_digits {ds rest : List Char} (hds : ∀ c ∈ ds, c.isDigit = true) (hrest : Ends rest) :
    (ds ++ rest).span Char.isDigit = (ds, rest) := by
  rw [List.span_eq_takeWhile_dropWhile, List.takeWhile_append_of_pos hds, List.dropWhile_append_of_pos hds]
  cases rest with
  | nil => rw [List.takeWhile_nil, List.append_nil, List.dropWhile_nil]
  | cons c rest =>
    have hc := (hrest c rfl).1
    rw [List.takeWhile_cons_of_neg (by simp [hc]), List.dropWhile_cons_of_neg (by simp [hc]), List.append_nil]

theorem scanDigits_append {ds rest : List Char} (hne : ds ≠ []) (hds : ∀ c ∈ ds, c.isDigit = true) (hrest : Ends rest) :
    scanDigits (ds ++ rest) = .ok (ds, rest) := by
  unfold scanDigits
  rw [span_digits hds hrest]
  cases ds with
  | nil => exact absurd rfl hne
  | cons d ds => rfl

theorem scanWhole_toDigits (n : Nat) {rest : List Char} (hrest : Ends rest) :
    scanWhole (Nat.toDigits 10 n ++ rest) = .ok (Nat.toDigits 10 n, rest) := by
  have hdigits := scanDigits_append (Nat.toDigits_ne_nil (n := n) (b := 10)) isDigit_of_mem hrest
  unfold scanWhole
  split
  · rename_i c rest' heq
    -- a leading zero is the whole number, and the text after it starts with no digit
    cases hd : Nat.toDigits 10 n with
    | nil => exact absurd hd Nat.toDigits_ne_nil
    | cons d ds =>
      rw [hd, List.cons_append, List.cons.injEq] at heq
      obtain ⟨rfl, heq⟩ := heq
      obtain rfl := toDigits_zero_head hd
      rw [List.nil_append] at heq
      rw [heq] at hrest ⊢
      rw [(hrest c rfl).1]
      rfl
  · exact hdigits

theorem scanExponent_ends {rest : List Char} (hrest : Ends rest) : scanExponent rest = .ok (none, rest) := by
  unfold scanExponent
  split
  · rename_i c rest
    have hc := hrest c rfl
    rw [if_neg fun h => h.elim hc.2.2.1 hc.2.2.2]
  · rfl

/-- Digits that nothing goes on with are a whole numeral, behind a minus sign or without one. -/
theorem scanNumeral_whole (negative : Bool) {cs whole rest : List Char} (hsign : ∀ cs', cs ≠ '-' :: cs')
    (hwhole : scanWhole cs = .ok (whole, rest)) (hrest : Ends rest) :
    scanNumeral (if negative then '-' :: cs else cs) = .ok (⟨negative, whole, none, none⟩, rest) := by
  have hexponent := scanExponent_ends hrest
  unfold scanNumeral
  split
  rename_i negative' cs' heq
  obtain ⟨rfl, rfl⟩ : negative' = negative ∧ cs' = cs := by
    cases negative with
    | true =>
      cases heq
      exact ⟨rfl, rfl⟩
    | false =>
      rw [if_neg Bool.false_ne_true] at heq
      split at heq
      · exact absurd rfl (hsign _)
      · cases heq
        exact ⟨rfl, rfl⟩
  simp only [bind, Except.bind]
  rw [hwhole]
  simp only
  split
  · exact absurd rfl (hrest '.' rfl).2.1
  · rw [hexponent]
    rfl

/-- Digits behind a zero and a point are a fraction. -/
theorem scanNumeral_fraction {ds rest : List Char} (hne : ds ≠ []) (hds : ∀ c ∈ ds, c.isDigit = true)
    (hrest : Ends rest) :
    scanNumeral ('0' :: '.' :: (ds ++ rest)) = .ok (⟨false, ['0'], some ds, none⟩, rest) := by
  have hwhole : scanWhole ('0' :: '.' :: (ds ++ rest)) = .ok (['0'], '.' :: (ds ++ rest)) := rfl
  have hdigits := scanDigits_append hne hds hrest
  have hexponent := scanExponent_ends hrest
  unfold scanNumeral
  split
  rename_i negative cs heq
  obtain ⟨rfl, rfl⟩ : negative = false ∧ cs = '0' :: '.' :: (ds ++ rest) := by
    cases heq
    exact ⟨rfl, rfl⟩
  simp only [bind, Except.bind]
  rw [hwhole]
  simp only
  rw [hdigits]
  simp only [Except.map]
  rw [hexponent]
  rfl

/-- An integer's text starts with a minus sign or a digit. -/
theorem print_head (n : Int) : ∃ c cs, (Number.int n).print = c :: cs ∧ (c = '-' ∨ c.isDigit = true) := by
  cases n with
  | negSucc n => exact ⟨'-', Nat.toDigits 10 (n + 1), rfl, .inl rfl⟩
  | ofNat n =>
    cases hd : Nat.toDigits 10 n with
    | nil => exact absurd hd Nat.toDigits_ne_nil
    | cons d ds => exact ⟨d, ds, hd, .inr (isDigit_of_mem d (hd ▸ List.mem_cons_self))⟩

theorem toDigits_no_sign (n : Nat) (rest cs : List Char) : Nat.toDigits 10 n ++ rest ≠ '-' :: cs := by
  intro h
  cases hd : Nat.toDigits 10 n with
  | nil => exact absurd hd Nat.toDigits_ne_nil
  | cons d ds =>
    rw [hd, List.cons_append, List.cons.injEq] at h
    have hdigit : d.isDigit = true := isDigit_of_mem d (hd ▸ List.mem_cons_self)
    rw [h.1] at hdigit
    cases hdigit

/-- The integers of 64 bits, signed or unsigned. -/
def InRange (n : Int) : Prop := -9223372036854775808 ≤ n ∧ n ≤ greatestWord

instance (n : Int) : Decidable (InRange n) := inferInstanceAs (Decidable (_ ∧ _))

theorem takeDigits_toDigits {n : Nat} (h : n ≤ greatestWord) :
    takeDigits 0 (Nat.toDigits 10 n) = (n, (Nat.toDigits 10 n).length, 0) := by
  have hvalue := Nat.ofDigitChars_toDigits (b := 10) (n := n) (by decide) (by decide)
  rw [takeDigits_eq _ _ (by omega), hvalue]

/-- **An integer is read back from its text.** -/
theorem scanNumber_print {n : Int} (hn : InRange n) {rest : List Char} (hrest : Ends rest) :
    scanNumber ((Number.int n).print ++ rest) = .token (.ok (.int n)) rest := by
  obtain ⟨hleast, hgreatest⟩ := hn
  cases n with
  | ofNat n =>
    have hle : n ≤ greatestWord := Int.ofNat_le.1 hgreatest
    have hscan := scanNumeral_whole false (toDigits_no_sign n rest) (scanWhole_toDigits n hrest) hrest
    show scanNumber (Nat.toDigits 10 n ++ rest) = _
    unfold scanNumber
    rw [if_neg Bool.false_ne_true] at hscan
    rw [hscan]
    unfold Numeral.value?
    simp only [takeDigits_toDigits hle]
    rfl
  | negSucc n =>
    have hle : n + 1 ≤ 9223372036854775808 := by omega
    have hscan := scanNumeral_whole true (toDigits_no_sign (n + 1) rest) (scanWhole_toDigits (n + 1) hrest) hrest
    show scanNumber ('-' :: (Nat.toDigits 10 (n + 1) ++ rest)) = _
    unfold scanNumber
    rw [if_pos rfl] at hscan
    rw [hscan]
    unfold Numeral.value?
    simp only [takeDigits_toDigits (n := n + 1) (by unfold greatestWord; omega)]
    rw [if_neg (by simp), if_neg (by simp), if_pos ⟨by omega, hle⟩]
    rfl

end Json
end Demarcate
