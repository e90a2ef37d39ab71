/-!
# Sorted maps

A finite map held as its entries in strictly increasing order of key.  The order is part of the type, so the entries
are determined by the look-ups: two maps that answer every look-up alike are equal (`SortedMap.ext_get?`).  Each
operation has one lemma that says what it does to the look-up (`get?_insert`, `get?_erase`), and nothing outside this
module looks inside an operation.
-/
namespace Demarcate

open Std (TransOrd LawfulEqOrd)

/-- A finite map from `κ` to `α`, its entries sorted by key. -/
structure SortedMap (κ α : Type) [Ord κ] where
  entries : List (κ × α)
  sorted : entries.Pairwise (fun a b => compare a.1 b.1 = .lt)

namespace SortedMap

section Entries

variable {κ α : Type} [Ord κ]

/-- Puts `v` under `k` into a sorted list of entries, in place of the entry `k` may have. -/
def insertEntry (k : κ) (v : α) : List (κ × α) → List (κ × α)
  | [] => [(k, v)]
  | e :: rest =>
    match compare k e.1 with
    | .lt => (k, v) :: e :: rest
    | .eq => (k, v) :: rest
    | .gt => e :: insertEntry k v rest

/-- The value of the first entry with the key `k`. -/
def findEntry (k : κ) : List (κ × α) → Option α
  | [] => none
  | e :: rest => if compare k e.1 = .eq then some e.2 else findEntry k rest

theorem mem_insertEntry {k : κ} {v : α} {x : κ × α} :
    ∀ {l : List (κ × α)}, x ∈ insertEntry k v l → x = (k, v) ∨ x ∈ l
  | [], h => by simpa [insertEntry] using h
  | e :: rest, h => by
    unfold insertEntry at h
    split at h
    · simpa using h
    · rcases List.mem_cons.1 h with h | h
      · exact .inl h
      · exact .inr (List.mem_cons_of_mem _ h)
    · rcases List.mem_cons.1 h with h | h
      · exact .inr (h ▸ List.mem_cons_self)
      · exact (mem_insertEntry h).imp id (List.mem_cons_of_mem _)

variable [TransOrd κ] [LawfulEqOrd κ]

theorem pairwise_insertEntry (k : κ) (v : α) : ∀ {l : List (κ × α)},
    l.Pairwise (fun a b => compare a.1 b.1 = .lt) →
      (insertEntry k v l).Pairwise (fun a b => compare a.1 b.1 = .lt)
  | [], _ => by simp [insertEntry]
  | e :: rest, h => by
    obtain ⟨hhead, htail⟩ := List.pairwise_cons.1 h
    unfold insertEntry
    split
    · rename_i hlt
      refine List.pairwise_cons.2 ⟨fun x hx => ?_, h⟩
      rcases List.mem_cons.1 hx with rfl | hx
      · exact hlt
      · exact Std.TransCmp.lt_trans hlt (hhead x hx)
    · rename_i heq
      obtain rfl := Std.LawfulEqOrd.eq_of_compare heq
      exact List.pairwise_cons.2 ⟨hhead, htail⟩
    · rename_i hgt
      refine List.pairwise_cons.2 ⟨fun x hx => ?_, pairwise_insertEntry k v htail⟩
      rcases mem_insertEntry hx with rfl | hx
      · exact Std.OrientedCmp.gt_iff_lt.1 hgt
      · exact hhead x hx

theorem findEntry_insertEntry (k k' : κ) (v : α) : ∀ (l : List (κ × α)),
    findEntry k' (insertEntry k v l) = if compare k' k = .eq then some v else findEntry k' l
  | [] => by simp [insertEntry, findEntry]
  | e :: rest => by
    unfold insertEntry
    split
    · simp only [findEntry]
    · rename_i heq
      obtain rfl := Std.LawfulEqOrd.eq_of_compare heq
      simp only [findEntry]
      split <;> rfl
    · rename_i hgt
      simp only [findEntry, findEntry_insertEntry k k' v rest]
      by_cases h : compare k' e.1 = .eq
      · obtain rfl := Std.LawfulEqOrd.eq_of_compare h
        have : compare e.1 k = .lt := Std.OrientedCmp.gt_iff_lt.1 hgt
        simp [this]
      · simp [h]

omit [TransOrd κ] [LawfulEqOrd κ] in
theorem findEntry_eq_none_of_lt {k : κ} : ∀ {l : List (κ × α)},
    (∀ e ∈ l, compare k e.1 = .lt) → findEntry k l = none
  | [], _ => rfl
  | e :: rest, h => by
    have he := h e List.mem_cons_self
    simp only [findEntry, he, reduceCtorEq, if_false]
    exact findEntry_eq_none_of_lt fun x hx => h x (List.mem_cons_of_mem _ hx)

omit [TransOrd κ] in
theorem findEntry_filter (k k' : κ) : ∀ (l : List (κ × α)),
    findEntry k' (l.filter fun e => compare k e.1 != .eq) = if compare k' k = .eq then none else findEntry k' l
  | [] => by simp [findEntry]
  | e :: rest => by
    rw [List.filter_cons]
    by_cases hk : compare k e.1 = .eq
    · obtain rfl := Std.LawfulEqOrd.eq_of_compare hk
      simp only [Std.compare_self, bne_self_eq_false, Bool.false_eq_true, if_false, findEntry_filter e.1 k' rest,
        findEntry]
      by_cases h : compare k' e.1 = .eq <;> simp [h]
    · have hb : (compare k e.1 != .eq) = true := by simpa using hk
      simp only [hb, if_true, findEntry, findEntry_filter k k' rest]
      by_cases h : compare k' e.1 = .eq
      · obtain rfl := Std.LawfulEqOrd.eq_of_compare h
        have : ¬ compare e.1 k = .eq := fun hc => hk (by
          obtain rfl := Std.LawfulEqOrd.eq_of_compare hc
          exact Std.compare_self)
        simp [this]
      · simp [h]

theorem eq_of_findEntry : ∀ {l m : List (κ × α)},
    l.Pairwise (fun a b => compare a.1 b.1 = .lt) → m.Pairwise (fun a b => compare a.1 b.1 = .lt) →
      (∀ k, findEntry k l = findEntry k m) → l = m
  | [], [], _, _, _ => rfl
  | [], e :: m, _, _, h => by simpa [findEntry] using h e.1
  | e :: l, [], _, _, h => by simpa [findEntry] using h e.1
  | d :: l, e :: m, hl, hm, h => by
    obtain ⟨hd, hl'⟩ := List.pairwise_cons.1 hl
    obtain ⟨he, hm'⟩ := List.pairwise_cons.1 hm
    -- the two heads are the two least keys, and each is found in the other list
    have hkey : compare d.1 e.1 = .eq := by
      cases hc : compare d.1 e.1 with
      | eq => rfl
      | lt =>
        have h1 : findEntry d.1 (e :: m) = none := findEntry_eq_none_of_lt fun x hx => by
          rcases List.mem_cons.1 hx with rfl | hx
          · exact hc
          · exact Std.TransCmp.lt_trans hc (he x hx)
        have h2 := h d.1
        rw [h1] at h2
        simp [findEntry] at h2
      | gt =>
        have hc' : compare e.1 d.1 = .lt := Std.OrientedCmp.gt_iff_lt.1 hc
        have h1 : findEntry e.1 (d :: l) = none := findEntry_eq_none_of_lt fun x hx => by
          rcases List.mem_cons.1 hx with rfl | hx
          · exact hc'
          · exact Std.TransCmp.lt_trans hc' (hd x hx)
        have h2 := h e.1
        rw [h1] at h2
        simp [findEntry] at h2
    have hk : d.1 = e.1 := Std.LawfulEqOrd.eq_of_compare hkey
    have hv : d.2 = e.2 := by
      have h2 := h d.1
      simpa [findEntry, hk] using h2
    have hrest : l = m := eq_of_findEntry hl' hm' fun k => by
      have h2 := h k
      simp only [findEntry, hk] at h2
      by_cases hc : compare k e.1 = .eq
      · obtain rfl := Std.LawfulEqOrd.eq_of_compare hc
        rw [findEntry_eq_none_of_lt he, findEntry_eq_none_of_lt (hk ▸ hd)]
      · simpa [hc] using h2
    rw [hrest, Prod.ext hk hv]

omit [TransOrd κ] in
theorem findEntry_eq_some_iff {k : κ} {v : α} : ∀ {l : List (κ × α)},
    l.Pairwise (fun a b => compare a.1 b.1 = .lt) → (findEntry k l = some v ↔ (k, v) ∈ l)
  | [], _ => by simp [findEntry]
  | e :: l, h => by
    obtain ⟨hd, hl⟩ := List.pairwise_cons.1 h
    simp only [findEntry, List.mem_cons]
    by_cases hc : compare k e.1 = .eq
    · obtain rfl := Std.LawfulEqOrd.eq_of_compare hc
      simp only [Std.compare_self, if_true, Option.some.injEq]
      constructor
      · rintro rfl; exact .inl rfl
      · rintro (h | h)
        · exact congrArg Prod.snd h.symm
        · have := hd _ h
          simp at this
    · simp only [hc, if_false, findEntry_eq_some_iff hl]
      constructor
      · exact .inr
      · rintro (rfl | h)
        · simp at hc
        · exact h

end Entries

/-! ## The maps -/

section Maps

variable {κ α β : Type} [Ord κ]

protected def empty : SortedMap κ α := ⟨[], .nil⟩

instance : EmptyCollection (SortedMap κ α) := ⟨SortedMap.empty⟩
instance : Inhabited (SortedMap κ α) := ⟨∅⟩

instance [DecidableEq κ] [DecidableEq α] : DecidableEq (SortedMap κ α) := fun m n =>
  if h : m.entries = n.entries then .isTrue (by cases m; cases n; simpa using h)
  else .isFalse fun hmn => h (hmn ▸ rfl)

def get? (m : SortedMap κ α) (k : κ) : Option α := findEntry k m.entries
def contains (m : SortedMap κ α) (k : κ) : Bool := (m.get? k).isSome
def keys (m : SortedMap κ α) : List κ := m.entries.map (·.1)
def values (m : SortedMap κ α) : List α := m.entries.map (·.2)
def size (m : SortedMap κ α) : Nat := m.entries.length
def isEmpty (m : SortedMap κ α) : Bool := m.entries.isEmpty

def erase (m : SortedMap κ α) (k : κ) : SortedMap κ α :=
  ⟨m.entries.filter fun e => compare k e.1 != .eq, m.sorted.filter _⟩

/-- Applies `f` to every value. -/
def mapValues (f : α → β) (m : SortedMap κ α) : SortedMap κ β :=
  ⟨m.entries.map fun e => (e.1, f e.2), List.pairwise_map.2 m.sorted⟩

variable [TransOrd κ] [LawfulEqOrd κ]

def insert (m : SortedMap κ α) (k : κ) (v : α) : SortedMap κ α :=
  ⟨insertEntry k v m.entries, pairwise_insertEntry k v m.sorted⟩

/-- The map of a list of entries; of several entries with one key the last counts. -/
def ofList (l : List (κ × α)) : SortedMap κ α :=
  l.foldl (fun m e => m.insert e.1 e.2) ∅

omit [TransOrd κ] [LawfulEqOrd κ] in
@[simp] theorem get?_empty (k : κ) : (∅ : SortedMap κ α).get? k = none := rfl

theorem get?_insert (m : SortedMap κ α) (k k' : κ) (v : α) [DecidableEq κ] :
    (m.insert k v).get? k' = if k' = k then some v else m.get? k' := by
  simp only [get?, insert, findEntry_insertEntry, Std.LawfulEqCmp.compare_eq_iff_eq]

omit [TransOrd κ] in
theorem get?_erase (m : SortedMap κ α) (k k' : κ) [DecidableEq κ] :
    (m.erase k).get? k' = if k' = k then none else m.get? k' := by
  simp only [get?, erase, findEntry_filter, Std.LawfulEqCmp.compare_eq_iff_eq]

omit [TransOrd κ] [LawfulEqOrd κ] in
theorem get?_mapValues (f : α → β) (m : SortedMap κ α) (k : κ) : (m.mapValues f).get? k = (m.get? k).map f := by
  have hentries : ∀ l : List (κ × α), findEntry k (l.map fun e => (e.1, f e.2)) = (findEntry k l).map f := by
    intro l
    induction l with
    | nil => rfl
    | cons e l ih =>
      unfold findEntry
      simp only [List.map_cons]
      split
      · rfl
      · exact ih
  exact hentries m.entries

/-- Two maps that answer every look-up alike are equal. -/
theorem ext_get? {m n : SortedMap κ α} (h : ∀ k, m.get? k = n.get? k) : m = n := by
  cases m with | mk l hl => cases n with | mk l' hl' =>
    obtain rfl : l = l' := eq_of_findEntry hl hl' h
    rfl

omit [TransOrd κ] in
theorem get?_eq_some_iff {m : SortedMap κ α} {k : κ} {v : α} : m.get? k = some v ↔ (k, v) ∈ m.entries :=
  findEntry_eq_some_iff m.sorted

omit [TransOrd κ] in
theorem isEmpty_iff {m : SortedMap κ α} : m.isEmpty = true ↔ ∀ k, m.get? k = none := by
  cases m with | mk l hl =>
    cases l with
    | nil => simp [isEmpty, get?, findEntry]
    | cons e l =>
      simp only [isEmpty, List.isEmpty_cons, Bool.false_eq_true, get?, false_iff]
      intro h
      have := h e.1
      simp [findEntry] at this

/-- A list that has the entries of a map, and nothing else, is a list of the map. -/
theorem ofList_eq [DecidableEq κ] {m : SortedMap κ α} {l : List (κ × α)} (hsub : ∀ e ∈ l, m.get? e.1 = some e.2)
    (hall : ∀ k v, m.get? k = some v → (k, v) ∈ l) : ofList l = m := by
  have hfold : ∀ (l : List (κ × α)) (start : SortedMap κ α), (∀ e ∈ l, m.get? e.1 = some e.2) →
      (∀ k v, start.get? k = some v → m.get? k = some v) →
      (∀ k v, m.get? k = some v → (k, v) ∈ l ∨ start.get? k = some v) →
      l.foldl (fun m e => m.insert e.1 e.2) start = m := by
    intro l
    induction l with
    | nil =>
      intro start _ hstart hrest
      refine ext_get? fun k => ?_
      cases hk : m.get? k with
      | some v => exact (hrest k v hk).resolve_left (by simp)
      | none =>
        cases hs : start.get? k with
        | none => exact hs
        | some v =>
          rw [hstart k v hs] at hk
          cases hk
    | cons e l ih =>
      intro start hl hstart hrest
      have he := hl e List.mem_cons_self
      refine ih _ (fun e' he' => hl e' (List.mem_cons_of_mem _ he')) (fun k v hk => ?_) fun k v hk => ?_
      · rw [get?_insert] at hk
        split at hk
        · rename_i heq
          rw [heq, he]
          exact hk
        · exact hstart k v hk
      · rw [get?_insert]
        split
        · rename_i heq
          rw [heq, he] at hk
          exact .inr hk
        · rename_i hne
          refine (hrest k v hk).imp_left fun hmem => ?_
          rcases List.mem_cons.1 hmem with heq | hmem
          · exact absurd (congrArg Prod.fst heq) hne
          · exact hmem
  exact hfold l ∅ hsub (fun k v hk => by cases hk) fun k v hk => .inl (hall k v hk)

theorem ofList_entries [DecidableEq κ] (m : SortedMap κ α) : ofList m.entries = m :=
  ofList_eq (fun _ h => get?_eq_some_iff.2 h) fun _ _ h => get?_eq_some_iff.1 h

/-- A map made from entries that agree wherever they have a key in common has these entries and no others. -/
theorem get?_ofList [DecidableEq κ] (value : κ → Option α) {l : List (κ × α)} (h : ∀ e ∈ l, value e.1 = some e.2)
    (k : κ) : (ofList l).get? k = if k ∈ l.map Prod.fst then value k else none := by
  have hfold : ∀ (l : List (κ × α)) (start : SortedMap κ α), (∀ e ∈ l, value e.1 = some e.2) →
      (l.foldl (fun m e => m.insert e.1 e.2) start).get? k =
        if k ∈ l.map Prod.fst then value k else start.get? k := by
    intro l
    induction l with
    | nil => exact fun start _ => rfl
    | cons e l ih =>
      intro start h
      rw [List.foldl_cons, ih _ fun e' he' => h e' (List.mem_cons_of_mem _ he'), get?_insert, List.map_cons]
      by_cases hl : k ∈ l.map Prod.fst
      · rw [if_pos hl, if_pos (List.mem_cons_of_mem _ hl)]
      · rw [if_neg hl]
        by_cases hk : k = e.1
        · rw [if_pos hk, if_pos (hk ▸ List.mem_cons_self), hk, h e List.mem_cons_self]
        · rw [if_neg hk, if_neg fun hmem => (List.mem_cons.1 hmem).elim hk hl]
  exact hfold l ∅ h

/-- What a map made from a list has was in the list. -/
theorem mem_of_get?_ofList [DecidableEq κ] {l : List (κ × α)} {k : κ} {v : α} (h : (ofList l).get? k = some v) :
    (k, v) ∈ l := by
  have hfold : ∀ (l : List (κ × α)) (start : SortedMap κ α),
      (l.foldl (fun m e => m.insert e.1 e.2) start).get? k = some v → (k, v) ∈ l ∨ start.get? k = some v := by
    intro l
    induction l with
    | nil => exact fun start h => .inr h
    | cons e l ih =>
      intro start h
      rcases ih _ h with h | h
      · exact .inl (List.mem_cons_of_mem e h)
      · rw [get?_insert] at h
        split at h
        · rename_i hk
          cases h
          exact .inl (hk ▸ List.mem_cons_self)
        · exact .inr h
  exact (hfold l ∅ h).resolve_right nofun

omit [TransOrd κ] in
theorem mem_values_iff {m : SortedMap κ α} {v : α} : v ∈ m.values ↔ ∃ k, m.get? k = some v := by
  unfold values
  rw [List.mem_map]
  constructor
  · rintro ⟨e, he, rfl⟩
    exact ⟨e.1, get?_eq_some_iff.2 he⟩
  · rintro ⟨k, hk⟩
    exact ⟨(k, v), get?_eq_some_iff.1 hk, rfl⟩

end Maps

end SortedMap
end Demarcate
