import Demarcate.Name
import Demarcate.Proofs.Results
import Mathlib.Data.List.Forall2
/-!
# Grammar — which texts are names, and why the others are not

The grammar of a kind of name is said without the functions that check it (`NameGrammar`): how many bytes a name has,
how it may start, of which characters it is and which words are taken in any letter case.  Each check of the model has
one lemma for what it lets pass and one for what it reports.  Put together in their order, they accept the texts of the
grammar (`Accepts`) and report of every other text the first rule that it breaks (`Rejects`).
-/
namespace Demarcate

section Check

variable {ε β : Type} {check : Except ε Unit} {rest : Unit → Except ε β}

/-- What follows a check is reached where the check lets pass. -/
theorem check_ok_iff {b : β} : (check >>= rest) = .ok b ↔ check = .ok () ∧ rest () = .ok b :=
  ⟨fun h => let ⟨(), hcheck, hrest⟩ := bind_ok h; ⟨hcheck, hrest⟩,
    fun ⟨hcheck, hrest⟩ => (bind_of_ok hcheck rest).trans hrest⟩

theorem check_error_iff {e : ε} :
    (check >>= rest) = .error e ↔ check = .error e ∨ check = .ok () ∧ rest () = .error e := by
  cases check with
  | error e' =>
    show Except.error e' = .error e ↔ _
    simp only [reduceCtorEq, false_and, or_false, Except.error.injEq]
  | ok a =>
    show rest a = .error e ↔ _
    simp only [reduceCtorEq, false_or, true_and]

end Check

/-! ## The grammar -/

def IsLetter (c : Char) : Prop := ('a' ≤ c ∧ c ≤ 'z') ∨ ('A' ≤ c ∧ c ≤ 'Z')

def IsFigure (c : Char) : Prop := '0' ≤ c ∧ c ≤ '9'

/-- A character that a name may have. -/
def IsPlain (c : Char) : Prop := IsLetter c ∨ IsFigure c ∨ c = '_' ∨ c = '-'

/-- The text is the word, each of whose letters may be in upper case. -/
def InSomeCase (word text : String) : Prop :=
  List.Forall₂ (fun l c => c = l ∨ c = l.toUpper) word.toList text.toList

/-- What names of one kind are held to. -/
structure NameGrammar where
  /-- How many bytes a name has at most. -/
  limit : Nat
  /-- The characters that a name may start with. -/
  Starts : Char → Prop
  /-- The words that no name is, whatever the case of their letters. -/
  taken : List String

namespace NameGrammar

/-- A grammar that only counts the bytes and looks at each character by itself. -/
def plain (limit : Nat) : NameGrammar where
  limit := limit
  Starts _ := True
  taken := []

def tables : NameGrammar where
  limit := 64
  Starts c := IsLetter c ∨ c = '_'
  taken := ["_meta", "_system", "_git"]

def keys : NameGrammar := plain 128

def backends : NameGrammar := plain 64

variable (g : NameGrammar)

/-- The number of bytes is one that a name can have. -/
def Sized (text : String) : Prop := 1 ≤ text.utf8ByteSize ∧ text.utf8ByteSize ≤ g.limit

def StartsWell (text : String) : Prop := ∀ c, text.toList.head? = some c → g.Starts c

def IsTaken (text : String) : Prop := ∃ word ∈ g.taken, InSomeCase word text

/-- The text is a name. -/
structure Accepts (text : String) : Prop where
  sized : g.Sized text
  starts : g.StartsWell text
  plain : ∀ c ∈ text.toList, IsPlain c
  free : ¬ g.IsTaken text

/-- The first rule that the text breaks, in the order empty, too long, bad start, bad character, reserved. -/
inductive Rejects (text : String) : NameError → Prop where
  | empty (void : text = "") : Rejects text .empty
  | tooLong (nonvoid : text ≠ "") (long : g.limit < text.utf8ByteSize) : Rejects text (.tooLong text.utf8ByteSize)
  | badStart {c : Char} (sized : g.Sized text) (first : text.toList.head? = some c) (start : ¬ g.Starts c) :
      Rejects text (.badStart c)
  | badChar {lead rest : List Char} {c : Char} (sized : g.Sized text) (starts : g.StartsWell text)
      (split : text.toList = lead ++ c :: rest) (plain : ∀ d ∈ lead, IsPlain d) (bad : ¬ IsPlain c) :
      Rejects text (.badChar c lead.length)
  | reserved (sized : g.Sized text) (starts : g.StartsWell text) (plain : ∀ c ∈ text.toList, IsPlain c)
      (taken : g.IsTaken text) : Rejects text (.reserved text)

/-- The rules one after the other: each is looked at where the ones before it hold. -/
theorem rejects_iff {g : NameGrammar} {text : String} {e : NameError} : g.Rejects text e ↔
    ((text = "" ∧ e = .empty) ∨ (text ≠ "" ∧ g.limit < text.utf8ByteSize ∧ e = .tooLong text.utf8ByteSize)) ∨
      g.Sized text ∧ ((∃ c, text.toList.head? = some c ∧ ¬ g.Starts c ∧ e = .badStart c) ∨
        g.StartsWell text ∧ ((∃ lead c rest, text.toList = lead ++ c :: rest ∧ (∀ d ∈ lead, IsPlain d) ∧ ¬ IsPlain c ∧
            e = .badChar c lead.length) ∨
          (∀ c ∈ text.toList, IsPlain c) ∧ g.IsTaken text ∧ e = .reserved text)) := by
  constructor
  · intro h
    cases h with
    | empty hvoid => exact .inl (.inl ⟨hvoid, rfl⟩)
    | tooLong hnonvoid hlong => exact .inl (.inr ⟨hnonvoid, hlong, rfl⟩)
    | badStart hsized hfirst hstart => exact .inr ⟨hsized, .inl ⟨_, hfirst, hstart, rfl⟩⟩
    | badChar hsized hstarts hsplit hplain hbad =>
      exact .inr ⟨hsized, .inr ⟨hstarts, .inl ⟨_, _, _, hsplit, hplain, hbad, rfl⟩⟩⟩
    | reserved hsized hstarts hplain htaken => exact .inr ⟨hsized, .inr ⟨hstarts, .inr ⟨hplain, htaken, rfl⟩⟩⟩
  · rintro ((⟨hvoid, rfl⟩ | ⟨hnonvoid, hlong, rfl⟩) | ⟨hsized, ⟨c, hfirst, hstart, rfl⟩ | ⟨hstarts,
      ⟨lead, c, rest, hsplit, hplain, hbad, rfl⟩ | ⟨hplain, htaken, rfl⟩⟩⟩)
    · exact .empty hvoid
    · exact .tooLong hnonvoid hlong
    · exact .badStart hsized hfirst hstart
    · exact .badChar hsized hstarts hsplit hplain hbad
    · exact .reserved hsized hstarts hplain htaken

end NameGrammar

/-! ## The checks one by one -/

namespace NameRule

open NameGrammar (tables)

theorem isAlpha_iff (c : Char) : c.isAlpha = true ↔ IsLetter c := by
  unfold Char.isAlpha Char.isUpper Char.isLower IsLetter
  simp only [Bool.or_eq_true, Bool.and_eq_true, decide_eq_true_eq, ge_iff_le, ← Char.le_def]
  exact Or.comm

theorem allowed_iff (c : Char) : allowed c = true ↔ IsPlain c := by
  unfold allowed Char.isAlphanum Char.isDigit IsPlain IsFigure
  simp only [Bool.or_eq_true, isAlpha_iff, Bool.and_eq_true, decide_eq_true_eq, ge_iff_le, beq_iff_eq, or_assoc,
    ← Char.le_def]

section Length

variable {limit : Nat} {text : String}

theorem checkLength_ok_iff : checkLength limit text = .ok () ↔ 1 ≤ text.utf8ByteSize ∧ text.utf8ByteSize ≤ limit := by
  unfold checkLength
  split
  · simp only [reduceCtorEq, false_iff]
    omega
  · split
    · simp only [reduceCtorEq, false_iff]
      omega
    · simp only [true_iff]
      omega

theorem checkLength_error_iff {e : NameError} : checkLength limit text = .error e ↔
    (text = "" ∧ e = .empty) ∨ (text ≠ "" ∧ limit < text.utf8ByteSize ∧ e = .tooLong text.utf8ByteSize) := by
  have hempty : text.utf8ByteSize = 0 ↔ text = "" := String.utf8ByteSize_eq_zero_iff
  unfold checkLength
  split
  · rename_i hsize
    simp only [hempty.1 hsize, true_and, ne_eq, not_true_eq_false, false_and, or_false, Except.error.injEq, eq_comm]
  · rename_i hsize
    have hne : text ≠ "" := fun h => hsize (hempty.2 h)
    split
    · rename_i hlong
      simp only [hne, false_and, false_or, ne_eq, not_false_eq_true, hlong, true_and, Except.error.injEq, eq_comm]
    · rename_i hlong
      simp only [reduceCtorEq, hne, hlong, false_and, and_false, or_self]

end Length

theorem starts_iff (c : Char) : (c.isAlpha || c == '_') = true ↔ tables.Starts c := by
  rw [Bool.or_eq_true, isAlpha_iff, beq_iff_eq]
  rfl

theorem startsWell_ok_iff {text : String} : startsWell text.toList = .ok () ↔ tables.StartsWell text := by
  unfold NameGrammar.StartsWell
  cases text.toList with
  | nil => simp only [startsWell, List.head?_nil, reduceCtorEq, false_implies, implies_true]
  | cons c cs =>
    simp only [startsWell, List.head?_cons, Option.some.injEq, forall_eq', ← starts_iff]
    split <;> simp only [*, reduceCtorEq]

theorem startsWell_error_iff {text : String} {e : NameError} : startsWell text.toList = .error e ↔
    ∃ c, text.toList.head? = some c ∧ ¬ tables.Starts c ∧ e = .badStart c := by
  cases text.toList with
  | nil => simp only [startsWell, List.head?_nil, reduceCtorEq, false_and, exists_false]
  | cons c cs =>
    simp only [startsWell, List.head?_cons, Option.some.injEq, exists_eq_left', ← starts_iff]
    split <;> simp only [*, reduceCtorEq, not_true_eq_false, not_false_eq_true, false_and, true_and,
      Except.error.injEq, eq_comm]

/-- The first character that is not plain, and where it stands. -/
theorem firstBad_eq_some_iff {c : Char} {i : Nat} : ∀ {cs : List Char} {start : Nat},
    firstBad cs start = some (c, i) ↔ ∃ lead rest, cs = lead ++ c :: rest ∧ (∀ d ∈ lead, IsPlain d) ∧ ¬ IsPlain c ∧
      i = start + lead.length
  | [], start => by simp [firstBad]
  | d :: cs, start => by
    unfold firstBad
    split
    · rename_i hd
      rw [firstBad_eq_some_iff]
      constructor
      · rintro ⟨lead, rest, rfl, hlead, hc, rfl⟩
        refine ⟨d :: lead, rest, rfl, fun x hx => ?_, hc, by rw [List.length_cons]; omega⟩
        exact (List.mem_cons.1 hx).elim (fun heq => heq ▸ (allowed_iff d).1 hd) (hlead x)
      · rintro ⟨_ | ⟨x, lead⟩, rest, heq, hlead, hc, rfl⟩
        · obtain ⟨rfl, -⟩ := List.cons.inj heq
          exact absurd ((allowed_iff d).1 hd) hc
        · obtain ⟨rfl, rfl⟩ := List.cons.inj heq
          exact ⟨lead, rest, rfl, fun y hy => hlead y (List.mem_cons_of_mem _ hy), hc, by rw [List.length_cons]; omega⟩
    · rename_i hd
      have hbad : ¬ IsPlain d := fun h => hd ((allowed_iff d).2 h)
      constructor
      · intro h
        obtain ⟨rfl, rfl⟩ := Prod.mk.inj (Option.some.inj h)
        exact ⟨[], cs, rfl, fun _ hx => absurd hx List.not_mem_nil, hbad, rfl⟩
      · rintro ⟨_ | ⟨x, lead⟩, rest, heq, hlead, hc, rfl⟩
        · obtain ⟨rfl, -⟩ := List.cons.inj heq
          rfl
        · obtain ⟨rfl, -⟩ := List.cons.inj heq
          exact absurd (hlead d List.mem_cons_self) hbad

theorem firstBad_eq_none_iff : ∀ {cs : List Char} {start : Nat}, firstBad cs start = none ↔ ∀ c ∈ cs, IsPlain c
  | [], start => by simp [firstBad]
  | d :: cs, start => by
    unfold firstBad
    split
    · rename_i hd
      rw [firstBad_eq_none_iff, List.forall_mem_cons, and_iff_right ((allowed_iff d).1 hd)]
    · rename_i hd
      simp only [reduceCtorEq, List.forall_mem_cons, ← allowed_iff, hd, false_and]

theorem checkChars_ok_iff {text : String} : checkChars text = .ok () ↔ ∀ c ∈ text.toList, IsPlain c := by
  rw [← @firstBad_eq_none_iff _ 0]
  unfold checkChars
  cases firstBad text.toList 0 <;> simp

theorem checkChars_error_iff {text : String} {e : NameError} : checkChars text = .error e ↔
    ∃ lead c rest, text.toList = lead ++ c :: rest ∧ (∀ d ∈ lead, IsPlain d) ∧ ¬ IsPlain c ∧
      e = .badChar c lead.length := by
  unfold checkChars
  cases hbad : firstBad text.toList 0 with
  | none =>
    have hplain := firstBad_eq_none_iff.1 hbad
    simp only [reduceCtorEq, false_iff]
    rintro ⟨lead, c, rest, hsplit, -, hc, -⟩
    exact hc (hplain c (by rw [hsplit]; exact List.mem_append_right _ List.mem_cons_self))
  | some found =>
    obtain ⟨c, i⟩ := found
    constructor
    · intro h
      cases h
      obtain ⟨lead, rest, hsplit, hlead, hc, hi⟩ := firstBad_eq_some_iff.1 hbad
      exact ⟨lead, c, rest, hsplit, hlead, hc, by rw [hi, Nat.zero_add]⟩
    · rintro ⟨lead, c', rest, hsplit, hlead, hc, rfl⟩
      have hfound := firstBad_eq_some_iff.2 ⟨lead, rest, hsplit, hlead, hc, (Nat.zero_add _).symm⟩
      cases hbad.symm.trans hfound
      rfl

theorem toNat_toLower (c : Char) : c.toLower.toNat = if 65 ≤ c.toNat ∧ c.toNat ≤ 90 then c.toNat + 32 else c.toNat := by
  unfold Char.toLower
  simp only [ge_iff_le, UInt32.le_iff_toNat_le, Char.toNat]
  split
  · rename_i h
    have : 65 ≤ c.val.toNat ∧ c.val.toNat ≤ 90 := h
    rw [if_pos this, UInt32.toNat_add]
    show (c.val.toNat + 32) % _ = _
    omega
  · rename_i h
    have : ¬ (65 ≤ c.val.toNat ∧ c.val.toNat ≤ 90) := h
    rw [if_neg this]

theorem toNat_toUpper (c : Char) : c.toUpper.toNat = if 97 ≤ c.toNat ∧ c.toNat ≤ 122 then c.toNat - 32 else c.toNat := by
  unfold Char.toUpper
  simp only [UInt32.le_iff_toNat_le, Char.toNat]
  split
  · rename_i h
    have : 97 ≤ c.val.toNat ∧ c.val.toNat ≤ 122 := h
    rw [if_pos this, UInt32.toNat_add]
    -- the machine adds `'A' - 'a'`, which is `-32`
    show (c.val.toNat + 4294967264) % _ = _
    omega
  · rename_i h
    have : ¬ (97 ≤ c.val.toNat ∧ c.val.toNat ≤ 122) := h
    rw [if_neg this]

/-- The characters whose lower case is a given one, which is none of the capital letters. -/
theorem toLower_eq_iff {l : Char} (hl : l.toLower = l) (c : Char) : c.toLower = l ↔ c = l ∨ c = l.toUpper := by
  simp only [← Char.toNat_inj, toNat_toLower, toNat_toUpper] at hl ⊢
  split at hl <;> split <;> split <;> omega

theorem lowered_eq_iff {word : List Char} (hword : ∀ l ∈ word, l.toLower = l) (text : List Char) :
    text.map Char.toLower = word ↔ List.Forall₂ (fun l c => c = l ∨ c = l.toUpper) word text := by
  induction word generalizing text with
  | nil => simp
  | cons l word ih =>
    cases text with
    | nil => simp
    | cons c text =>
      rw [List.map_cons, List.cons.injEq, List.forall₂_cons, toLower_eq_iff (hword l List.mem_cons_self),
        ih fun x hx => hword x (List.mem_cons_of_mem _ hx)]

theorem reservedTables_lower {word : String} (hword : word ∈ reservedTables) : ∀ l ∈ word.toList, l.toLower = l := by
  have hall : reservedTables.all (fun word => word.toList.all fun l => l.toLower == l) = true := by decide
  intro l hl
  exact beq_iff_eq.1 (List.all_eq_true.1 (List.all_eq_true.1 hall word hword) l hl)

theorem contains_lowered_iff (text : String) :
    reservedTables.contains (String.ofList (text.toList.map Char.toLower)) = true ↔ tables.IsTaken text := by
  rw [List.contains_iff_mem]
  constructor
  · intro hmem
    exact ⟨_, hmem, (lowered_eq_iff (reservedTables_lower hmem) _).1 String.toList_ofList.symm⟩
  · rintro ⟨word, hword, hcase⟩
    have hlow := (lowered_eq_iff (reservedTables_lower hword) _).2 hcase
    rw [hlow, String.ofList_toList]
    exact hword

theorem notReserved_ok_iff {text : String} : notReserved text = .ok () ↔ ¬ tables.IsTaken text := by
  rw [← contains_lowered_iff]
  unfold notReserved
  split <;> simp only [*, reduceCtorEq, not_true_eq_false, not_false_eq_true]

theorem notReserved_error_iff {text : String} {e : NameError} :
    notReserved text = .error e ↔ tables.IsTaken text ∧ e = .reserved text := by
  rw [← contains_lowered_iff]
  unfold notReserved
  split <;> simp only [*, reduceCtorEq, false_and, true_and, Except.error.injEq, eq_comm]

end NameRule

/-! ## The checks in their order -/

section Parse

open NameRule NameGrammar

variable {text : String} {e : NameError}

theorem TableName.parse_ok_iff {t : TableName} : TableName.parse text = .ok t ↔ t = ⟨text⟩ ∧ tables.Accepts text := by
  rw [TableName.parse, check_ok_iff, check_ok_iff, check_ok_iff, check_ok_iff, checkLength_ok_iff, startsWell_ok_iff,
    checkChars_ok_iff, notReserved_ok_iff]
  constructor
  · rintro ⟨hsized, hstarts, hplain, hfree, heq⟩
    exact ⟨(Except.ok.inj heq).symm, hsized, hstarts, hplain, hfree⟩
  · rintro ⟨rfl, h⟩
    exact ⟨h.sized, h.starts, h.plain, h.free, rfl⟩

theorem TableName.parse_error_iff : TableName.parse text = .error e ↔ tables.Rejects text e := by
  rw [TableName.parse, check_error_iff, check_error_iff, check_error_iff, check_error_iff, rejects_iff,
    checkLength_error_iff, checkLength_ok_iff, startsWell_error_iff, startsWell_ok_iff, checkChars_error_iff,
    checkChars_ok_iff, notReserved_error_iff]
  have hdone : ∀ p : Prop, ¬ (p ∧ (pure ⟨text⟩ : Except NameError TableName) = .error e) := fun _ h => nomatch h.2
  rw [or_iff_left (hdone _)]
  rfl

/-- The names of rows and of data sources are checked alike. -/
theorem plain_ok_iff {α : Type} {limit : Nat} {made name : α} :
    (do checkLength limit text; checkChars text; return made : Except NameError α) = .ok name ↔
      name = made ∧ (plain limit).Accepts text := by
  rw [check_ok_iff, check_ok_iff, checkLength_ok_iff, checkChars_ok_iff]
  constructor
  · rintro ⟨hsized, hplain, heq⟩
    exact ⟨(Except.ok.inj heq).symm, hsized, fun _ _ => trivial, hplain, fun ⟨_, hword, _⟩ => nomatch hword⟩
  · rintro ⟨rfl, h⟩
    exact ⟨h.sized, h.plain, rfl⟩

theorem plain_error_iff {α : Type} {limit : Nat} {made : α} :
    (do checkLength limit text; checkChars text; return made : Except NameError α) = .error e ↔
      (plain limit).Rejects text e := by
  rw [check_error_iff, check_error_iff, rejects_iff, checkLength_error_iff, checkLength_ok_iff, checkChars_error_iff]
  have hdone : ∀ p : Prop, ¬ (p ∧ (pure made : Except NameError α) = .error e) := fun _ h => nomatch h.2
  have hstart : ¬ ∃ c, text.toList.head? = some c ∧ ¬ (plain limit).Starts c ∧ e = .badStart c :=
    fun ⟨_, _, hstart, _⟩ => hstart trivial
  have htaken : ∀ p : Prop, ¬ (p ∧ (plain limit).IsTaken text ∧ e = .reserved text) :=
    fun _ ⟨_, ⟨_, hword, _⟩, _⟩ => nomatch hword
  have hstarts : (plain limit).StartsWell text := fun _ _ => trivial
  rw [or_iff_left (hdone _), or_iff_right hstart, and_iff_right hstarts, or_iff_left (htaken _)]
  rfl

theorem RowKey.parse_ok_iff {k : RowKey} : RowKey.parse text = .ok k ↔ k = ⟨text⟩ ∧ keys.Accepts text := plain_ok_iff

theorem RowKey.parse_error_iff : RowKey.parse text = .error e ↔ keys.Rejects text e := plain_error_iff

-- positions count characters, of which the first bad one is reported
example : RowKey.parse "größe?" = .error (.badChar 'ö' 2) := by decide

theorem BackendName.parse_ok_iff {b : BackendName} :
    BackendName.parse text = .ok b ↔ b = ⟨text⟩ ∧ backends.Accepts text := plain_ok_iff

theorem BackendName.parse_error_iff : BackendName.parse text = .error e ↔ backends.Rejects text e := plain_error_iff

end Parse

end Demarcate
