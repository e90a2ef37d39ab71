import Demarcate.Json.Document
import Demarcate.Proofs.Json.Tokens
/-!
# Spelling — the texts of a value

A text spells a value if it has the value's tokens in order, with any blanks between them (`Spells`); so both layouts
do (`spells_pretty`).  Every such text is scanned to the document of the value, and the scan goes on behind it
(`scanValue_spells`).  Numbers are integers of 64 bits (`Whole`): for others the text of a number is not its own again.
-/
namespace Demarcate
namespace Json

open Document (isBlank skipBlanks scanValue scanItems scanItem scanMembers scanMember scanWord ofJson ofItems)

/-! ## Plain values -/

mutual
/-- A value with integers of 64 bits as its only numbers, and with the fields of every object sorted and apart. -/
def Plain : Json → Prop
  | .number (.int n) => InRange n
  | .number (.float _) => False
  | .array items => PlainItems items
  | .object fields => fields.Pairwise (fun a b => compare a.1 b.1 = .lt) ∧ PlainFields fields
  | _ => True

def PlainItems : List Json → Prop
  | [] => True
  | a :: as => a.Plain ∧ PlainItems as

def PlainFields : List (String × Json) → Prop
  | [] => True
  | (_, a) :: as => a.Plain ∧ PlainFields as
end

mutual
/-- A value with integers of 64 bits as its only numbers. -/
def Whole : Json → Prop
  | .number (.int n) => InRange n
  | .number (.float _) => False
  | .array items => WholeItems items
  | .object fields => WholeFields fields
  | _ => True

def WholeItems : List Json → Prop
  | [] => True
  | a :: as => a.Whole ∧ WholeItems as

def WholeFields : List (String × Json) → Prop
  | [] => True
  | (_, a) :: as => a.Whole ∧ WholeFields as
end

mutual
theorem Plain.whole : ∀ {j : Json}, j.Plain → j.Whole
  | .null, _ => trivial
  | .bool _, _ => trivial
  | .number (.int _), h => h
  | .string _, _ => trivial
  | .array _, h => PlainItems.whole h
  | .object _, h => PlainFields.whole h.2

theorem PlainItems.whole : ∀ {as : List Json}, PlainItems as → WholeItems as
  | [], _ => trivial
  | _ :: _, h => ⟨h.1.whole, PlainItems.whole h.2⟩

theorem PlainFields.whole : ∀ {as : List (String × Json)}, PlainFields as → WholeFields as
  | [], _ => trivial
  | _ :: _, h => ⟨h.1.whole, PlainFields.whole h.2⟩
end

/-! ## Texts -/

def Blanks (cs : List Char) : Prop := ∀ c ∈ cs, isBlank c = true

/-- What stands before an item: blanks, and a comma among them if the item is not the first one. -/
def Lead (first : Bool) (cs : List Char) : Prop :=
  if first then Blanks cs else ∃ before after, Blanks before ∧ Blanks after ∧ cs = before ++ ',' :: after

mutual
/-- The text has the value's tokens in order, with blanks between them. -/
def Spells : Json → List Char → Prop
  | .null, cs => cs = "null".toList
  | .bool b, cs => cs = (if b then "true" else "false").toList
  | .number n, cs => cs = n.print
  | .string s, cs => cs = quote s
  | .array items, cs => ∃ body, cs = '[' :: body ∧ SpellsItems true items body
  | .object fields, cs => ∃ body, cs = '\x7b' :: body ∧ SpellsFields true fields body

/-- The items, `first` before the first of them, and the bracket. -/
def SpellsItems (first : Bool) : List Json → List Char → Prop
  | [], cs => ∃ blanks, cs = blanks ++ [']'] ∧ Blanks blanks
  | a :: as, cs => ∃ lead text body, cs = lead ++ (text ++ body) ∧ Lead first lead ∧ a.Spells text ∧
      SpellsItems false as body

/-- The fields, `first` before the first of them, and the bracket. -/
def SpellsFields (first : Bool) : List (String × Json) → List Char → Prop
  | [], cs => ∃ blanks, cs = blanks ++ ['\x7d'] ∧ Blanks blanks
  | (k, a) :: as, cs => ∃ lead before after text body,
      cs = lead ++ (quote k ++ (before ++ ':' :: (after ++ (text ++ body)))) ∧ Lead first lead ∧ Blanks before ∧
        Blanks after ∧ a.Spells text ∧ SpellsFields false as body
end

theorem Blanks.nil : Blanks [] := fun _ h => by cases h

theorem blanks_space : Blanks [' '] := fun c hc => by
  rw [List.mem_singleton.1 hc]
  decide

theorem blanks_newline (indent : Nat) : Blanks (newline indent) := fun c hc => by
  rcases List.mem_cons.1 hc with rfl | hc
  · decide
  · rw [List.eq_of_mem_replicate hc]
    decide

theorem lead_newline (first : Bool) (indent : Nat) :
    Lead first ((if first then [] else [',']) ++ newline indent) := by
  cases first with
  | true => exact blanks_newline indent
  | false => exact ⟨[], newline indent, .nil, blanks_newline indent, rfl⟩

mutual
/-- **A value with one item a line is spelled out.** -/
theorem spells_pretty (indent : Nat) : ∀ j : Json, j.Spells (j.pretty indent)
  | .null => rfl
  | .bool true => rfl
  | .bool false => rfl
  | .number _ => rfl
  | .string _ => rfl
  | .array [] => ⟨[']'], rfl, [], rfl, .nil⟩
  | .array (a :: as) =>
    ⟨_, rfl, newline (indent + 1), a.pretty (indent + 1), prettyItems indent as, rfl, lead_newline true (indent + 1),
      spells_pretty (indent + 1) a, spells_prettyItems indent as⟩
  | .object [] => ⟨['\x7d'], rfl, [], rfl, .nil⟩
  | .object ((_, a) :: as) =>
    ⟨_, rfl, newline (indent + 1), [], [' '], a.pretty (indent + 1), prettyFields indent as, rfl,
      lead_newline true (indent + 1), .nil, blanks_space, spells_pretty (indent + 1) a,
      spells_prettyFields indent as⟩

theorem spells_prettyItems (indent : Nat) : ∀ as : List Json, SpellsItems false as (prettyItems indent as)
  | [] => ⟨newline indent, rfl, blanks_newline indent⟩
  | a :: as =>
    ⟨',' :: newline (indent + 1), a.pretty (indent + 1), prettyItems indent as, rfl, lead_newline false (indent + 1),
      spells_pretty (indent + 1) a, spells_prettyItems indent as⟩

theorem spells_prettyFields (indent : Nat) : ∀ as : List (String × Json),
    SpellsFields false as (prettyFields indent as)
  | [] => ⟨newline indent, rfl, blanks_newline indent⟩
  | (_, a) :: as =>
    ⟨',' :: newline (indent + 1), [], [' '], a.pretty (indent + 1), prettyFields indent as, rfl,
      lead_newline false (indent + 1), .nil, blanks_space, spells_pretty (indent + 1) a,
      spells_prettyFields indent as⟩
end

mutual
/-- **A value without a blank is spelled out.** -/
theorem spells_compact : ∀ j : Json, j.Spells j.compact
  | .null => rfl
  | .bool true => rfl
  | .bool false => rfl
  | .number _ => rfl
  | .string _ => rfl
  | .array [] => ⟨[']'], rfl, [], rfl, .nil⟩
  | .array (a :: as) => ⟨_, rfl, [], a.compact, compactItems as, rfl, .nil, spells_compact a, spells_compactItems as⟩
  | .object [] => ⟨['\x7d'], rfl, [], rfl, .nil⟩
  | .object ((_, a) :: as) =>
    ⟨_, rfl, [], [], [], a.compact, compactFields as, rfl, .nil, .nil, .nil, spells_compact a, spells_compactFields as⟩

theorem spells_compactItems : ∀ as : List Json, SpellsItems false as (compactItems as)
  | [] => ⟨[], rfl, .nil⟩
  | a :: as =>
    ⟨[','], a.compact, compactItems as, rfl, ⟨[], [], .nil, .nil, rfl⟩, spells_compact a, spells_compactItems as⟩

theorem spells_compactFields : ∀ as : List (String × Json), SpellsFields false as (compactFields as)
  | [] => ⟨[], rfl, .nil⟩
  | (_, a) :: as =>
    ⟨[','], [], [], a.compact, compactFields as, rfl, ⟨[], [], .nil, .nil, rfl⟩, .nil, .nil, spells_compact a,
      spells_compactFields as⟩
end

/-! ## What a text starts with -/

theorem isDigit_of_isBlank {c : Char} (h : isBlank c = true) : c.isDigit = false := by
  unfold isBlank at h
  simp only [Bool.or_eq_true, decide_eq_true_eq] at h
  rcases h with ((rfl | rfl) | rfl) | rfl <;> rfl

/-- The head of a value's text is no blank and no closing bracket. -/
theorem Spells.head {j : Json} {cs : List Char} (h : j.Spells cs) (hj : j.Whole) :
    ∃ c cs', cs = c :: cs' ∧ isBlank c = false ∧ c ≠ ']' := by
  cases j with
  | null => exact ⟨_, _, h, by decide, by decide⟩
  | bool b => cases b <;> exact ⟨_, _, h, by decide, by decide⟩
  | string s => exact ⟨_, _, h, by decide, by decide⟩
  | array items =>
    obtain ⟨body, rfl, -⟩ := h
    exact ⟨_, _, rfl, by decide, by decide⟩
  | object fields =>
    obtain ⟨body, rfl, -⟩ := h
    exact ⟨_, _, rfl, by decide, by decide⟩
  | number n =>
    cases n with
    | float x => exact hj.elim
    | int n =>
      obtain ⟨c, cs', hprint, hc⟩ := print_head n
      refine ⟨c, cs', (show cs = (Number.int n).print from h).trans hprint, ?_, ?_⟩
      · cases hb : isBlank c with
        | false => rfl
        | true =>
          rw [isDigit_of_isBlank hb] at hc
          obtain rfl := hc.resolve_right Bool.false_ne_true
          exact hb.symm
      · rintro rfl
        exact hc.elim (by decide) (by decide)

theorem ends_blanks {blanks : List Char} (h : Blanks blanks) {cs : List Char} (hcs : Ends cs) : Ends (blanks ++ cs) := by
  cases blanks with
  | nil => exact hcs
  | cons c blanks =>
    have hc := h c List.mem_cons_self
    exact .cons (isDigit_of_isBlank hc) (by rintro rfl; cases hc) (by rintro rfl; cases hc) (by rintro rfl; cases hc) _

theorem Lead.ends {lead : List Char} (h : Lead false lead) (cs : List Char) : Ends (lead ++ cs) := by
  obtain ⟨before, after, hbefore, -, rfl⟩ := h
  rw [List.append_assoc]
  exact ends_blanks hbefore (.cons rfl (by decide) (by decide) (by decide) _)

/-- No number goes on with the items that stand behind it. -/
theorem SpellsItems.ends {as : List Json} {body : List Char} (h : SpellsItems false as body) (rest : List Char) :
    Ends (body ++ rest) := by
  cases as with
  | nil =>
    obtain ⟨blanks, rfl, hblanks⟩ := h
    rw [List.append_assoc]
    exact ends_blanks hblanks (.cons rfl (by decide) (by decide) (by decide) _)
  | cons a as =>
    obtain ⟨lead, text, body, rfl, hlead, -, -⟩ := h
    rw [List.append_assoc]
    exact hlead.ends _

theorem SpellsFields.ends {as : List (String × Json)} {body : List Char} (h : SpellsFields false as body)
    (rest : List Char) : Ends (body ++ rest) := by
  cases as with
  | nil =>
    obtain ⟨blanks, rfl, hblanks⟩ := h
    rw [List.append_assoc]
    exact ends_blanks hblanks (.cons rfl (by decide) (by decide) (by decide) _)
  | cons a as =>
    obtain ⟨lead, before, after, text, body, rfl, hlead, -⟩ := h
    rw [List.append_assoc]
    exact hlead.ends _

theorem SpellsItems.pos : ∀ {as : List Json} {first : Bool} {cs : List Char}, SpellsItems first as cs →
    0 < cs.length
  | [], _, _, ⟨blanks, hcs, _⟩ => by
    rw [hcs, List.length_append, List.length_singleton]
    omega
  | a :: as, _, _, ⟨lead, text, body, hcs, _, _, hbody⟩ => by
    have := hbody.pos
    rw [hcs, List.length_append, List.length_append]
    omega

/-! ## Scanning -/

theorem skipBlanks_append {blanks : List Char} (h : Blanks blanks) (cs : List Char) :
    skipBlanks (blanks ++ cs) = skipBlanks cs := List.dropWhile_append_of_pos h

theorem skipBlanks_cons {c : Char} (h : isBlank c = false) (cs : List Char) : skipBlanks (c :: cs) = c :: cs :=
  List.dropWhile_cons_of_neg (by rw [h]; decide)

theorem scanWord_append (doc : Document) : ∀ word rest : List Char, scanWord doc word (word ++ rest) = (doc, some rest)
  | [], rest => rfl
  | w :: ws, rest => by
    rw [List.cons_append, scanWord, if_pos rfl]
    exact scanWord_append doc ws rest

theorem scanValue_string (fuel : Nat) (s : String) (rest : List Char) :
    scanValue (fuel + 1) (quote s ++ rest) = (.string (.ok s), some rest) := by
  obtain ⟨text, htext, hscan⟩ := scanString_quote s rest
  rw [htext, scanValue, hscan]

theorem scanValue_int (fuel : Nat) {n : Int} (hn : InRange n) {rest : List Char} (hrest : Ends rest) :
    scanValue (fuel + 1) ((Number.int n).print ++ rest) = (.number (.ok (.int n)), some rest) := by
  have hscan := scanNumber_print hn hrest
  obtain ⟨c, cs, hprint, hc⟩ := print_head n
  have hne : ∀ d : Char, d ≠ '-' → d.isDigit = false → c ≠ d := fun d hminus hdigit heq => by
    rw [heq, hdigit] at hc
    exact hc.elim hminus (by decide)
  rw [hprint, List.cons_append] at hscan ⊢
  rw [scanValue, if_pos hc, hscan]
  all_goals exact hne _ (by decide) (by decide)

/-- Behind the items that were read, `first` before the first of them, the next one is read. -/
theorem scanItems_lead {first : Bool} {lead : List Char} (h : Lead first lead) {c : Char} (hblank : isBlank c = false)
    (hclose : c ≠ ']') (fuel : Nat) (cs : List Char) :
    scanItems (fuel + 1) first (skipBlanks (lead ++ c :: cs)) = scanItem fuel (c :: cs) := by
  cases first with
  | true =>
    rw [skipBlanks_append h, skipBlanks_cons hblank, scanItems]
    · rfl
    · exact hclose
  | false =>
    obtain ⟨before, after, hbefore, hafter, rfl⟩ := h
    rw [List.append_assoc, skipBlanks_append hbefore, List.cons_append, skipBlanks_cons (by decide), scanItems]
    · simp only [Bool.false_eq_true, if_false, if_true]
      rw [skipBlanks_append hafter, skipBlanks_cons hblank]
      split
      · rename_i heq
        cases heq
      · rename_i heq
        exact absurd (List.cons.inj heq).1 hclose
      · rfl
    · decide

theorem scanMembers_lead {first : Bool} {lead : List Char} (h : Lead first lead) {c : Char} (hblank : isBlank c = false)
    (hclose : c ≠ '\x7d') (fuel : Nat) (cs : List Char) :
    scanMembers (fuel + 1) first (skipBlanks (lead ++ c :: cs)) = scanMember fuel (c :: cs) := by
  cases first with
  | true =>
    rw [skipBlanks_append h, skipBlanks_cons hblank, scanMembers]
    · rfl
    · exact hclose
  | false =>
    obtain ⟨before, after, hbefore, hafter, rfl⟩ := h
    rw [List.append_assoc, skipBlanks_append hbefore, List.cons_append, skipBlanks_cons (by decide), scanMembers]
    · simp only [Bool.false_eq_true, if_false, if_true]
      rw [skipBlanks_append hafter, skipBlanks_cons hblank]
      split
      · rename_i heq
        cases heq
      · rename_i heq
        exact absurd (List.cons.inj heq).1 hclose
      · rfl
    · decide

/-- Where the value of a field is scanned, the scan goes on with the fields behind it. -/
theorem scanMembers_field {first : Bool} {lead before after text body rest : List Char} (hlead : Lead first lead)
    (hbefore : Blanks before) (hafter : Blanks after) (k : String)
    (htext : ∃ c cs, text = c :: cs ∧ isBlank c = false ∧ c ≠ ']') {fuel : Nat} {d : Document}
    (hvalue : scanValue fuel (text ++ (body ++ rest)) = (d, some (body ++ rest))) :
    scanMembers (fuel + 2) first
        (skipBlanks (lead ++ (quote k ++ (before ++ ':' :: (after ++ (text ++ body)))) ++ rest)) =
      ((.ok k, d) :: (scanMembers fuel false (skipBlanks (body ++ rest))).1,
        (scanMembers fuel false (skipBlanks (body ++ rest))).2) := by
  obtain ⟨c, cs, rfl, hblank, -⟩ := htext
  rw [List.cons_append] at hvalue
  obtain ⟨name, hname, hscan⟩ := scanString_quote k (before ++ ':' :: (after ++ c :: (cs ++ (body ++ rest))))
  have happend : lead ++ (quote k ++ (before ++ ':' :: (after ++ (c :: cs ++ body)))) ++ rest = lead ++ '"' :: name := by
    rw [← hname]
    simp only [List.append_assoc, List.cons_append]
  rw [happend, scanMembers_lead hlead (by decide) (by decide), scanMember, hscan]
  simp only
  rw [skipBlanks_append hbefore, skipBlanks_cons (by decide)]
  simp only
  rw [skipBlanks_append hafter, skipBlanks_cons hblank, hvalue]

mutual
/-- **A text of a value is scanned to the value's document**, and the scan goes on behind it. -/
theorem scanValue_spells : ∀ {j : Json} {cs : List Char}, j.Whole → j.Spells cs → ∀ (fuel : Nat), 2 * cs.length ≤ fuel →
    ∀ {rest : List Char}, Ends rest → scanValue fuel (cs ++ rest) = (ofJson j, some rest)
  | j, cs, hj, h, 0, hfuel, rest, _ => by
    obtain ⟨c, cs', rfl, -⟩ := h.head hj
    rw [List.length_cons] at hfuel
    omega
  | .null, cs, _, h, fuel + 1, _, rest, _ => by
    obtain rfl : cs = _ := h
    exact scanWord_append .null "ull".toList rest
  | .bool true, cs, _, h, fuel + 1, _, rest, _ => by
    obtain rfl : cs = _ := h
    exact scanWord_append (.bool true) "rue".toList rest
  | .bool false, cs, _, h, fuel + 1, _, rest, _ => by
    obtain rfl : cs = _ := h
    exact scanWord_append (.bool false) "alse".toList rest
  | .number (.int n), cs, hj, h, fuel + 1, _, rest, hrest => by
    obtain rfl : cs = _ := h
    exact scanValue_int fuel hj hrest
  | .string s, cs, _, h, fuel + 1, _, rest, _ => by
    obtain rfl : cs = _ := h
    exact scanValue_string fuel s rest
  | .array items, cs, hj, h, fuel + 1, hfuel, rest, _ => by
    obtain ⟨body, rfl, hbody⟩ := h
    rw [List.length_cons] at hfuel
    rw [List.cons_append, scanValue, scanItems_spells hj hbody fuel (by omega) rest]
    rfl
  | .object fields, cs, hj, h, fuel + 1, hfuel, rest, _ => by
    obtain ⟨body, rfl, hbody⟩ := h
    rw [List.length_cons] at hfuel
    rw [List.cons_append, scanValue, scanMembers_spells hj hbody fuel (by omega) rest]
    rfl

theorem scanItems_spells : ∀ {as : List Json} {first : Bool} {cs : List Char}, WholeItems as →
    SpellsItems first as cs → ∀ (fuel : Nat), 2 * cs.length ≤ fuel → ∀ (rest : List Char),
      scanItems fuel first (skipBlanks (cs ++ rest)) = (ofItems as, .closed, some rest)
  | [], first, cs, _, h, fuel, hfuel, rest => by
    obtain ⟨blanks, rfl, hblanks⟩ := h
    rw [List.length_append, List.length_singleton] at hfuel
    obtain ⟨fuel, rfl⟩ : ∃ n, fuel = n + 1 := ⟨fuel - 1, by omega⟩
    rw [List.append_assoc, skipBlanks_append hblanks, List.singleton_append, skipBlanks_cons (by decide), scanItems]
    rfl
  | a :: as, first, cs, hj, h, fuel, hfuel, rest => by
    obtain ⟨lead, text, body, rfl, hlead, htext, hbody⟩ := h
    have hpos := hbody.pos
    obtain ⟨c, text', htext', hblank, hclose⟩ := htext.head hj.1
    have hlength : 0 < text.length := by rw [htext', List.length_cons]; omega
    rw [List.length_append, List.length_append] at hfuel
    obtain ⟨fuel, rfl⟩ : ∃ n, fuel = n + 2 := ⟨fuel - 2, by omega⟩
    have hvalue := scanValue_spells hj.1 htext fuel (by omega) (hbody.ends rest)
    have hrest := scanItems_spells hj.2 hbody fuel (by omega) rest
    rw [htext'] at hvalue ⊢
    rw [List.append_assoc, List.append_assoc, List.cons_append, scanItems_lead hlead hblank hclose, ← List.cons_append,
      scanItem, hvalue]
    simp only
    rw [hrest]
    rfl

theorem scanMembers_spells : ∀ {as : List (String × Json)} {first : Bool} {cs : List Char}, WholeFields as →
    SpellsFields first as cs → ∀ (fuel : Nat), 2 * cs.length ≤ fuel → ∀ (rest : List Char),
      scanMembers fuel first (skipBlanks (cs ++ rest)) = (Document.ofFields as, .closed, some rest)
  | [], first, cs, _, h, fuel, hfuel, rest => by
    obtain ⟨blanks, rfl, hblanks⟩ := h
    rw [List.length_append, List.length_singleton] at hfuel
    obtain ⟨fuel, rfl⟩ : ∃ n, fuel = n + 1 := ⟨fuel - 1, by omega⟩
    rw [List.append_assoc, skipBlanks_append hblanks, List.singleton_append, skipBlanks_cons (by decide), scanMembers]
    rfl
  | (k, a) :: as, first, cs, hj, h, fuel, hfuel, rest => by
    obtain ⟨lead, before, after, text, body, rfl, hlead, hbefore, hafter, htext, hbody⟩ := h
    simp only [List.length_append, List.length_cons] at hfuel
    obtain ⟨fuel, rfl⟩ : ∃ n, fuel = n + 2 := ⟨fuel - 2, by omega⟩
    have hvalue := scanValue_spells hj.1 htext fuel (by omega) (hbody.ends rest)
    have hrest := scanMembers_spells hj.2 hbody fuel (by omega) rest
    rw [scanMembers_field hlead hbefore hafter k (htext.head hj.1) hvalue, hrest]
    rfl
end

/-- **The fields that a text begins with are scanned first**, and then what is behind them. -/
theorem scanMembers_append : ∀ {as more : List (String × Json)} {first : Bool} {cs : List Char}, WholeFields as →
    SpellsFields first (as ++ more) cs → ∀ (fuel : Nat), 2 * cs.length ≤ fuel → ∀ (rest : List Char),
      ∃ behind tail fuel', SpellsFields behind more tail ∧ 2 * tail.length ≤ fuel' ∧
        scanMembers fuel first (skipBlanks (cs ++ rest)) =
          (Document.ofFields as ++ (scanMembers fuel' behind (skipBlanks (tail ++ rest))).1,
            (scanMembers fuel' behind (skipBlanks (tail ++ rest))).2)
  | [], _, first, cs, _, h, fuel, hfuel, _ => ⟨first, cs, fuel, h, hfuel, rfl⟩
  | (k, a) :: as, more, first, cs, hj, h, fuel, hfuel, rest => by
    obtain ⟨lead, before, after, text, body, rfl, hlead, hbefore, hafter, htext, hbody⟩ := h
    simp only [List.length_append, List.length_cons] at hfuel
    obtain ⟨fuel, rfl⟩ : ∃ n, fuel = n + 2 := ⟨fuel - 2, by omega⟩
    have hvalue := scanValue_spells hj.1 htext fuel (by omega) (hbody.ends rest)
    obtain ⟨behind, tail, fuel', htail, hfuel', hscan⟩ := scanMembers_append hj.2 hbody fuel (by omega) rest
    refine ⟨behind, tail, fuel', htail, hfuel', ?_⟩
    rw [scanMembers_field hlead hbefore hafter k (htext.head hj.1) hvalue, hscan]
    rfl

end Json
end Demarcate
