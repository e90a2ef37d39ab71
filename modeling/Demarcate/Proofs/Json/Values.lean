import Demarcate.Json.Decode
import Demarcate.Proofs.Json.Spelling
/-!
# Values — what is read from a value's text

A text of a value is read as the value's document (`decodeText_spells`), so two objects with one text are one object
(`toPrettyText_inj`).  A value is read from its document as it is, unless more arrays and objects stand inside
one another than may (`toJson_ofJson`): the printer knows no such limit.
-/
namespace Demarcate
namespace Json

open Document (skipBlanks scanValue ofJson ofItems toJsonItems toJsonMembers)

/-! ## From the text to the document -/

/-- **A text of a value is scanned to the end, and to the value's document.**  The fields of an object may stand in any
order here, and one name may stand twice. -/
theorem ofText_spells {j : Json} {cs : List Char} (hj : j.Whole) (h : j.Spells cs) :
    Document.ofText cs = (ofJson j, some []) := by
  obtain ⟨c, cs', rfl, hblank, -⟩ := h.head hj
  have hscan := scanValue_spells hj h (3 * (c :: cs').length + 3) (by omega) .nil
  rw [List.append_nil] at hscan
  unfold Document.ofText
  rw [skipBlanks_cons hblank]
  exact hscan

theorem decodeText_spells {α : Type} (read : Document.Decoder α) {j : Json} {text : String} (hj : j.Whole)
    (h : j.Spells text.toList) : decodeText read text = read (.text depthLimit) (ofJson j) := by
  unfold decodeText
  rw [ofText_spells hj h]
  simp only
  cases read (.text depthLimit) (ofJson j) <;> rfl

theorem spells_toText (j : Json) : j.Spells j.toText.toList := by
  unfold toText
  rw [String.toList_ofList]
  exact spells_compact j

theorem spells_toPrettyText (j : Json) : j.Spells j.toPrettyText.toList := by
  unfold toPrettyText
  rw [String.toList_ofList]
  exact spells_pretty 0 j

theorem decodeText_pretty {α : Type} (read : Document.Decoder α) {fields : List (String × Json)}
    (h : PlainFields fields) :
    decodeText read (toPrettyText (.object fields)) = read (.text depthLimit) (ofJson (.object fields)) :=
  decodeText_spells read h.whole (spells_toPrettyText _)

mutual
theorem ofJson_inj : ∀ {a b : Json}, ofJson a = ofJson b → a = b
  | .null, b, h => by cases b <;> cases h; rfl
  | .bool _, b, h => by cases b <;> cases h; rfl
  | .number _, b, h => by cases b <;> cases h; rfl
  | .string _, b, h => by cases b <;> cases h; rfl
  | .array as, b, h => by
    cases b with
    | array bs => rw [ofItems_inj (Document.array.inj h).1]
    | _ => cases h
  | .object as, b, h => by
    cases b with
    | object bs => rw [ofFields_inj (Document.object.inj h).1]
    | _ => cases h

theorem ofItems_inj : ∀ {as bs : List Json}, ofItems as = ofItems bs → as = bs
  | [], [], _ => rfl
  | a :: as, b :: bs, h => by
    obtain ⟨ha, has⟩ := List.cons.inj h
    rw [ofJson_inj ha, ofItems_inj has]

theorem ofFields_inj : ∀ {as bs : List (String × Json)}, Document.ofFields as = Document.ofFields bs → as = bs
  | [], [], _ => rfl
  | (k, a) :: as, (l, b) :: bs, h => by
    obtain ⟨ha, has⟩ := List.cons.inj h
    rw [Except.ok.inj (Prod.mk.inj ha).1, ofJson_inj (Prod.mk.inj ha).2, ofFields_inj has]
end

/-- **Two objects with one text are one object.** -/
theorem toPrettyText_inj {as bs : List (String × Json)} (has : PlainFields as) (hbs : PlainFields bs)
    (h : toPrettyText (.object as) = toPrettyText (.object bs)) : as = bs := by
  have hread : ∀ {fields}, PlainFields fields →
      Document.ofText (toPrettyText (.object fields)).toList = (ofJson (.object fields), some []) := fun hfields =>
    ofText_spells (show (Json.object _).Whole from hfields.whole) (spells_toPrettyText _)
  have hdoc := hread has
  rw [h, hread hbs, Prod.mk.injEq] at hdoc
  exact (Json.object.inj (ofJson_inj hdoc.1)).symm

/-! ## From the document to the value -/

/-- What reading `a` gives where `depth` brackets stand inside one another and `limit` may. -/
def within {α : Type} (limit depth : Nat) (a : α) : Except DecodeError α :=
  if depth ≤ limit then .ok a else .error .malformed

/-- Two readings one after the other are one, as deep as the deeper of the two. -/
theorem within_both {α β γ : Type} (f : α → β → γ) (limit m n : Nat) (a : α) (b : β) :
    (do let x ← within limit m a; let y ← within limit n b; return f x y) = within limit (max m n) (f a b) := by
  unfold within
  by_cases hm : m ≤ limit
  · rw [if_pos hm]
    by_cases hn : n ≤ limit
    · have hmax : max m n ≤ limit := by omega
      rw [if_pos hn, if_pos hmax]
      rfl
    · have hmax : ¬ max m n ≤ limit := by omega
      rw [if_neg hn, if_neg hmax]
      rfl
  · have hmax : ¬ max m n ≤ limit := by omega
    rw [if_neg hm, if_neg hmax]
    rfl

/-- A reading inside one more bracket. -/
theorem within_enter {α β : Type} (f : α → β) (limit depth : Nat) (a : α) :
    (do let x ← within limit depth a; return f x) = within (limit + 1) (depth + 1) (f a) := by
  unfold within
  by_cases h : depth ≤ limit
  · rw [if_pos h, if_pos (Nat.succ_le_succ h)]
    rfl
  · rw [if_neg h, if_neg fun hs => h (Nat.le_of_succ_le_succ hs)]
    rfl

mutual
/-- **A value is read as it is, if it is not too deep.** -/
theorem toJson_ofJson : ∀ {j : Json}, j.Plain → ∀ limit, (ofJson j).toJson (.text limit) = within limit j.depth j
  | .null, _, _ => rfl
  | .bool _, _, _ => rfl
  | .number _, _, _ => rfl
  | .string _, _, _ => rfl
  | .array items, _, 0 => rfl
  | .array items, hj, limit + 1 => by
    have hitems := toJsonItems_ofItems hj limit
    show (do let js ← toJsonItems (.text limit) (ofItems items); return Json.array js) = _
    rw [hitems]
    exact within_enter Json.array limit (depthItems items) items
  | .object fields, _, 0 => rfl
  | .object fields, hj, limit + 1 => by
    obtain ⟨hsorted, hfields⟩ := hj
    have hmembers := toJsonMembers_ofFields hfields limit
    have hmap : Json.ofFields fields = .object fields :=
      congrArg (fun m => Json.object (SortedMap.entries m)) (SortedMap.ofList_entries ⟨fields, hsorted⟩)
    show (do let js ← toJsonMembers (.text limit) (Document.ofFields fields); return Json.ofFields js) = _
    rw [hmembers, within_enter, hmap]
    rfl

theorem toJsonItems_ofItems : ∀ {as : List Json}, PlainItems as → ∀ limit,
    toJsonItems (.text limit) (ofItems as) = within limit (depthItems as) as
  | [], _, _ => rfl
  | a :: as, hj, limit => by
    show (do
      let j ← (ofJson a).toJson (.text limit)
      let js ← toJsonItems (.text limit) (ofItems as)
      return j :: js) = _
    rw [toJson_ofJson hj.1, toJsonItems_ofItems hj.2]
    exact within_both List.cons limit a.depth (depthItems as) a as

theorem toJsonMembers_ofFields : ∀ {as : List (String × Json)}, PlainFields as → ∀ limit,
    toJsonMembers (.text limit) (Document.ofFields as) = within limit (depthFields as) as
  | [], _, _ => rfl
  | (k, a) :: as, hj, limit => by
    show (do
      let j ← (ofJson a).toJson (.text limit)
      let js ← toJsonMembers (.text limit) (Document.ofFields as)
      return (k, j) :: js) = _
    rw [toJson_ofJson hj.1, toJsonMembers_ofFields hj.2]
    exact within_both (fun j js => (k, j) :: js) limit a.depth (depthFields as) a as
end

end Json
end Demarcate
