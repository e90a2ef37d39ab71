import Demarcate.Proofs.Json.Values
import Demarcate.Proofs.Results
/-!
# Records — decoders on the documents of values

A decoder reads a value off its JSON if it does so wherever as many brackets may open as the JSON has inside one another
(`Decodes`).  A list is read off its items, a map off its entries and a record off its fields, one after the other.  The
other way round, what every field of a record keeps, the record has in the end (`RecordShape.decode_keeps`), in
whatever order the fields came.
-/
namespace Demarcate
namespace Json

open Document (Decoder FieldShape RecordShape ofJson ofItems readItems readEntries)

/-! ## Room for brackets -/

/-- `depth` brackets may open inside one another. -/
def Source.Allows (depth : Nat) : Source → Prop
  | .text limit => depth ≤ limit
  | _ => True

theorem Source.Allows.enter {source : Source} {depth : Nat} (h : source.Allows (depth + 1)) :
    ∃ inside, source.enter = .ok inside ∧ inside.Allows depth := by
  cases source with
  | text limit =>
    cases limit with
    | zero => exact absurd h (Nat.not_succ_le_zero depth)
    | succ limit => exact ⟨.text limit, rfl, Nat.le_of_succ_le_succ h⟩
  | setAside => exact ⟨.setAside, rfl, trivial⟩
  | value => exact ⟨.value, rfl, trivial⟩

theorem Source.Allows.mono {source : Source} {m n : Nat} (h : source.Allows n) (hmn : m ≤ n) : source.Allows m := by
  cases source with
  | text limit => exact Nat.le_trans hmn h
  | setAside => trivial
  | value => trivial

/-- The decoder reads `a` off the value, where `depth` brackets may open inside one another. -/
def Decodes {α : Type} (read : Decoder α) (depth : Nat) (j : Json) (a : α) : Prop :=
  ∀ source : Source, source.Allows depth → read source (ofJson j) = .ok a

namespace Decodes

variable {α β : Type} {read : Decoder α} {depth : Nat}

theorem map {j : Json} {a : α} (h : Decodes read depth j a) (f : α → β) :
    Decodes (fun source d => do return f (← read source d)) depth j (f a) :=
  fun source hsource => bind_of_ok (h source hsource) _

theorem string (s : String) : Decodes Document.readString 0 (.string s) s := fun _ _ => rfl

theorem bool (b : Bool) : Decodes Document.readBool 0 (.bool b) b := fun _ _ => rfl

theorem parsed {ε : Type} {parse : String → Except ε α} {s : String} {a : α} (h : parse s = .ok a)
    (message : ε → String) : Decodes (Document.parsed parse message) 0 (.string s) a := by
  intro source hsource
  refine (bind_of_ok (string s source hsource) _).trans ?_
  rw [h]

/-! ### Lists and maps -/

theorem items {toJson : α → Json} {inside : Source} (hinside : inside.Allows depth) : ∀ {as : List α},
    (∀ a ∈ as, Decodes read depth (toJson a) a) → readItems read inside (ofItems (as.map toJson)) = .ok as
  | [], _ => rfl
  | a :: as, h => by
    have hrest := items hinside fun b hb => h b (List.mem_cons_of_mem a hb)
    show (do
      let a ← read inside (ofJson (toJson a))
      return a :: (← readItems read inside (ofItems (as.map toJson)))) = _
    rw [h a List.mem_cons_self inside hinside, hrest]
    rfl

/-- **A list is read off its items.** -/
theorem list {toJson : α → Json} {as : List α} (h : ∀ a ∈ as, Decodes read depth (toJson a) a) :
    Decodes (Document.list read) (depth + 1) (.array (as.map toJson)) as := by
  intro source hsource
  obtain ⟨inside, henter, hinside⟩ := hsource.enter
  show (do
    let inside ← source.enter
    let as ← readItems read inside (ofItems (as.map toJson))
    Document.checkClose .closed
    return as) = _
  rw [henter]
  exact bind_of_ok (items hinside h) _

theorem entries {κ : Type} {key : String → Except DecodeError κ} {name : κ → String} {toJson : α → Json}
    {inside : Source} (hinside : inside.Allows depth) : ∀ {es : List (κ × α)},
    (∀ e ∈ es, key (name e.1) = .ok e.1 ∧ Decodes read depth (toJson e.2) e.2) →
      readEntries key read inside (Document.ofFields (es.map (Prod.map name toJson))) = .ok es
  | [], _ => rfl
  | e :: es, h => by
    obtain ⟨hkey, hvalue⟩ := h e List.mem_cons_self
    have hrest := entries hinside fun e' he => h e' (List.mem_cons_of_mem e he)
    show (do
      let k ← key (name e.1)
      let a ← read inside (ofJson (toJson e.2))
      return (k, a) :: (← readEntries key read inside (Document.ofFields (es.map (Prod.map name toJson))))) = _
    rw [hkey, hvalue inside hinside, hrest]
    rfl

/-- **A map is read off its entries.** -/
theorem sortedMap {κ : Type} [Ord κ] [Std.TransOrd κ] [Std.LawfulEqOrd κ] [DecidableEq κ]
    {key : String → Except DecodeError κ} {name : κ → String} {toJson : α → Json} {m : SortedMap κ α}
    (h : ∀ e ∈ m.entries, key (name e.1) = .ok e.1 ∧ Decodes read depth (toJson e.2) e.2) :
    Decodes (Document.sortedMap key read) (depth + 1) (.object (m.entries.map (Prod.map name toJson))) m := by
  intro source hsource
  obtain ⟨inside, henter, hinside⟩ := hsource.enter
  show (do
    let inside ← source.enter
    let es ← readEntries key read inside (Document.ofFields (m.entries.map (Prod.map name toJson)))
    Document.checkClose .closed
    return SortedMap.ofList es) = _
  rw [henter]
  refine (bind_of_ok (entries hinside h) _).trans ?_
  exact congrArg Except.ok (SortedMap.ofList_entries m)

end Decodes

/-! ## Records -/

namespace Document.RecordShape

variable {σ : Type} {shape : RecordShape σ}

/-- A field that was not read before is read. -/
theorem readMembers_cons {inside : Source} {name : String} {f : FieldShape σ} {j : Json} {s s' : σ}
    (hfield : shape.field? name = some f) (hset : f.isSet s = false) (hread : f.read inside (ofJson j) s = .ok s')
    (fields : List (String × Json)) :
    shape.readMembers inside (Document.ofFields ((name, j) :: fields)) s =
      shape.readMembers inside (Document.ofFields fields) s' := by
  have hmember : shape.readMember inside name (ofJson j) s = .ok s' := by
    unfold readMember
    rw [hfield]
    dsimp only
    rw [hset]
    exact hread
  show (do
    let s ← shape.readMember inside name (ofJson j) s
    shape.readMembers inside (Document.ofFields fields) s) = _
  rw [hmember]
  rfl

/-- **A record is read off its fields.** -/
theorem decodes {depth : Nat} {fields : List (String × Json)} {initial s : σ}
    (hread : ∀ inside : Source, inside.Allows depth →
      shape.readMembers inside (Document.ofFields fields) initial = .ok s)
    (hmissing : shape.firstMissing? s = none) : Decodes (shape.decode initial) (depth + 1) (.object fields) s := by
  intro source hsource
  obtain ⟨inside, henter, hinside⟩ := hsource.enter
  refine (bind_of_ok henter _).trans ?_
  refine (bind_of_ok (hread inside hinside) _).trans ?_
  refine (bind_of_ok (a := ()) rfl _).trans ?_
  rw [hmissing]

/-! ### What is read of any document -/

/-- Every field that is read keeps `P`. -/
def Keeps (shape : RecordShape σ) (P : σ → Prop) : Prop :=
  ∀ f ∈ shape.fields, ∀ (source : Source) (d : Document) (s s' : σ), P s → f.read source d s = .ok s' → P s'

variable {P : σ → Prop} (h : shape.Keeps P)

include h

theorem readMembers_keeps {inside : Source} : ∀ {members : List (Except Fault String × Document)} {s s' : σ}, P s →
    shape.readMembers inside members s = .ok s' → P s'
  | [], s, s', hs, hread => by
    cases hread
    exact hs
  | (k, d) :: members, s, s', hs, hread => by
    obtain ⟨name, -, hread⟩ := bind_ok hread
    obtain ⟨s₁, hmember, hread⟩ := bind_ok hread
    refine readMembers_keeps ?_ hread
    unfold readMember at hmember
    cases hf : shape.field? name with
    | none =>
      rw [hf] at hmember
      obtain ⟨_, -, hmember⟩ := bind_ok hmember
      cases hmember
      exact hs
    | some f =>
      rw [hf] at hmember
      dsimp only at hmember
      split at hmember
      · cases hmember
      · exact h f (List.mem_of_find?_eq_some hf) inside d s s₁ hs hmember

theorem readInOrder_keeps {inside : Source} : ∀ {fields : List (FieldShape σ)} {items : List Document} {s : σ}
    {read : σ × Nat}, (∀ f ∈ fields, f ∈ shape.fields) → P s → readInOrder inside fields items s = .ok read → P read.1
  | [], items, s, read, _, hs, hread => by
    cases hread
    exact hs
  | _ :: _, [], s, read, _, hs, hread => by
    cases hread
    exact hs
  | f :: fields, d :: items, s, read, hsub, hs, hread => by
    obtain ⟨s₁, hfield, hread⟩ := bind_ok hread
    have hs₁ := h f (hsub f List.mem_cons_self) inside d s s₁ hs hfield
    exact readInOrder_keeps (fun g hg => hsub g (List.mem_cons_of_mem f hg)) hs₁ hread

/-- **What every field keeps, the record has.** -/
theorem decode_keeps {initial s : σ} (hinitial : P initial) {source : Source} {d : Document}
    (hread : shape.decode initial source d = .ok s) : P s := by
  unfold decode at hread
  split at hread
  · obtain ⟨inside, -, hread⟩ := bind_ok hread
    obtain ⟨s₁, hmembers, hread⟩ := bind_ok hread
    obtain ⟨_, -, hread⟩ := bind_ok hread
    split at hread
    · cases hread
    · cases hread
      exact readMembers_keeps h hinitial hmembers
  · obtain ⟨inside, -, hread⟩ := bind_ok hread
    obtain ⟨⟨s₁, extra⟩, hitems, hread⟩ := bind_ok hread
    dsimp only at hread
    split at hread
    · cases hread
    · obtain ⟨_, -, hread⟩ := bind_ok hread
      split at hread
      · cases hread
      · cases hread
        exact readInOrder_keeps h (fun f hf => hf) hinitial hitems
  · cases hread

end Document.RecordShape

/-! ## Maps that are read of any document -/

theorem readEntries_key {κ α : Type} {key : String → Except DecodeError κ} {read : Decoder α} {inside : Source} :
    ∀ {members : List (Except Fault String × Document)} {es : List (κ × α)},
      readEntries key read inside members = .ok es → ∀ e ∈ es, ∃ text, key text = .ok e.1
  | [], es, h, e, he => by
    cases h
    cases he
  | (k, d) :: members, es, h, e, he => by
    obtain ⟨text, -, h⟩ := bind_ok h
    obtain ⟨k', hkey, h⟩ := bind_ok h
    obtain ⟨a, -, h⟩ := bind_ok h
    obtain ⟨rest, hrest, h⟩ := bind_ok h
    cases h
    rcases List.mem_cons.1 he with rfl | he
    · exact ⟨text, hkey⟩
    · exact readEntries_key hrest e he

/-- Every key of a map is what `key` has made of some text. -/
theorem sortedMap_key {κ α : Type} [Ord κ] [Std.TransOrd κ] [Std.LawfulEqOrd κ] [DecidableEq κ]
    {key : String → Except DecodeError κ} {read : Decoder α} {source : Source} {d : Document} {m : SortedMap κ α}
    (h : Document.sortedMap key read source d = .ok m) {k : κ} {a : α} (hk : m.get? k = some a) :
    ∃ text, key text = .ok k := by
  unfold Document.sortedMap at h
  split at h
  · obtain ⟨inside, -, h⟩ := bind_ok h
    obtain ⟨es, hes, h⟩ := bind_ok h
    obtain ⟨_, -, h⟩ := bind_ok h
    cases h
    exact readEntries_key hes (k, a) (SortedMap.mem_of_get?_ofList hk)
  · cases h

/-! ## Texts -/

theorem wholeItems_map {α : Type} {toJson : α → Json} (h : ∀ a, (toJson a).Whole) :
    ∀ as : List α, WholeItems (as.map toJson)
  | [] => trivial
  | a :: as => ⟨h a, wholeItems_map h as⟩

theorem wholeFields_map {κ α : Type} {name : κ → String} {toJson : α → Json} (h : ∀ a, (toJson a).Whole) :
    ∀ es : List (κ × α), WholeFields (es.map (Prod.map name toJson))
  | [] => trivial
  | e :: es => ⟨h e.2, wholeFields_map h es⟩

/-- The texts that a value is written as. -/
def layouts (j : Json) : List String := [j.toText, j.toPrettyText]

/-- **What a decoder reads off a value it reads off the value's texts**, if no more brackets stand inside one another
than may. -/
theorem Decodes.text {α : Type} {read : Decoder α} {depth : Nat} {j : Json} {a : α} (h : Decodes read depth j a)
    (hj : j.Whole) (hdepth : depth ≤ depthLimit) {text : String} (htext : text ∈ j.layouts) :
    decodeText read text = .ok a := by
  have hspells : j.Spells text.toList := by
    rcases List.mem_cons.1 htext with rfl | htext
    · exact spells_toText j
    · obtain rfl := List.mem_singleton.1 htext
      exact spells_toPrettyText j
  rw [decodeText_spells read hj hspells]
  exact h (.text depthLimit) hdepth

/-- What a text is read as, a document is. -/
theorem decodeText_ok {α : Type} {read : Decoder α} {text : String} {a : α}
    (h : decodeText read text = .ok a) : read (.text depthLimit) (Document.ofText text.toList).1 = .ok a := by
  unfold decodeText at h
  simp only at h
  obtain ⟨a', ha, h⟩ := bind_ok h
  split at h
  · cases h
    exact ha
  · cases h

end Json
end Demarcate
