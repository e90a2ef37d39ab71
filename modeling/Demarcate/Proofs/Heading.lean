import Demarcate.Proofs.Codec
import Demarcate.Proofs.Json.Records
/-!
# Heading — the fields before the columns, whatever the columns are

A column may hold a number that is not read as it was written, may be too deep, or may have the name of one of the four
fields before the columns.  The four stand first, so they are scanned as they were written whatever comes after them
(`scan_encode`); and no column changes what was read of them, for one with such a name is refused (`readMembers_parts`).
So a row that is read at all has the version and the times that it was written with (`decode_heading`).  Its columns may
be other ones: a double is read for what the digits of its text are worth step by step (`decode_fraction`).
-/
namespace Demarcate
namespace Row

open Json (Document DecodeError)

/-- The version and the times. -/
def heading (r : Row) : Nat × String × String := (r.version, r.createdAt, r.updatedAt)

theorem heading_eq_iff {r s : Row} :
    r.heading = s.heading ↔ r.version = s.version ∧ r.createdAt = s.createdAt ∧ r.updatedAt = s.updatedAt := by
  unfold heading
  rw [Prod.mk.injEq, Prod.mk.injEq]

theorem whole_header {r : Row} (hversion : r.version ≤ greatestVersion) : Json.WholeFields r.header := by
  have hrange : Json.InRange r.version := ⟨by omega, Int.ofNat_le.2 hversion⟩
  exact ⟨trivial, hrange, trivial, trivial, trivial⟩

/-- **A row's text is scanned to an object** that begins with the fields before the columns, and goes on with what the
columns are scanned to. -/
theorem scan_encode {r : Row} (hversion : r.version ≤ greatestVersion) : ∃ behind tail fuel,
    Json.SpellsFields behind r.columns.entries tail ∧ 2 * tail.length ≤ fuel ∧ Document.ofText r.encode.toList =
      (.object (Document.ofFields r.header ++ (Document.scanMembers fuel behind (Document.skipBlanks tail)).1)
        (Document.scanMembers fuel behind (Document.skipBlanks tail)).2.1,
      (Document.scanMembers fuel behind (Document.skipBlanks tail)).2.2) := by
  obtain ⟨body, htext, hbody⟩ := Json.spells_toPrettyText (.object (r.header ++ r.columns.entries))
  have hencode : r.encode.toList = '\x7b' :: body := htext
  obtain ⟨behind, tail, fuel, htail, hfuel, hscan⟩ :=
    Json.scanMembers_append (whole_header hversion) hbody (3 * (body.length + 1) + 2) (by omega) []
  rw [List.append_nil, List.append_nil] at hscan
  refine ⟨behind, tail, fuel, htail, hfuel, ?_⟩
  unfold Document.ofText
  rw [hencode, Json.skipBlanks_cons (by decide)]
  show (Document.object (Document.scanMembers (3 * (body.length + 1) + 2) true (Document.skipBlanks body)).1
    (Document.scanMembers (3 * (body.length + 1) + 2) true (Document.skipBlanks body)).2.1,
    (Document.scanMembers (3 * (body.length + 1) + 2) true (Document.skipBlanks body)).2.2) = _
  rw [hscan]

theorem readMembers_append {inside : Json.Source} : ∀ {as bs : List (Except Json.Fault String × Document)}
    {p q : Parts}, readMembers inside as p = .ok q →
      readMembers inside (as ++ bs) p = readMembers inside bs q
  | [], _, _, _, h => by
    cases h
    rfl
  | (k, d) :: as, bs, p, q, h => by
    obtain ⟨name, hname, h⟩ := bind_ok h
    obtain ⟨p', hmember, h⟩ := bind_ok h
    rw [List.cons_append]
    refine (bind_of_ok hname _).trans ?_
    refine (bind_of_ok hmember _).trans ?_
    exact readMembers_append h

/-- **Columns do not change what was read before them.** -/
theorem readMembers_parts {r : Row} {inside : Json.Source} :
    ∀ {ms : List (Except Json.Fault String × Document)} {columns : List (String × Json)} {p : Parts},
      readMembers inside ms (r.parts columns) = .ok p → ∃ columns', p = r.parts columns'
  | [], columns, _, h => by
    cases h
    exact ⟨columns, rfl⟩
  | (k, d) :: ms, columns, p, h => by
    obtain ⟨name, -, h⟩ := bind_ok h
    obtain ⟨p', hmember, h⟩ := bind_ok h
    by_cases hname : name ∈ headerNames
    · rw [readMember_duplicate r columns hname] at hmember
      cases hmember
    · simp only [headerNames, List.mem_cons, List.not_mem_nil, or_false, not_or] at hname
      obtain ⟨hkey, hversion, hcreated, hupdated⟩ := hname
      unfold readMember at hmember
      rw [if_neg hkey, if_neg hversion, if_neg hcreated, if_neg hupdated] at hmember
      obtain ⟨j, -, hmember⟩ := bind_ok hmember
      cases hmember
      exact readMembers_parts h

/-- **A row that is read from its text has the version and the times that it was written with**, whatever its columns
are. -/
theorem decode_heading {r row : Row} {k : RowKey} (hversion : r.version ≤ greatestVersion)
    (h : decode r.encode k = .ok row) : row.heading = r.heading := by
  unfold decode at h
  split at h
  · cases h
  rename_i key made hread
  split at h
  · cases h
    have hrecord := Json.decodeText_ok hread
    obtain ⟨_, _, _, -, -, hscan⟩ := scan_encode hversion
    rw [hscan] at hrecord
    obtain ⟨inside, henter, hrecord⟩ := bind_ok hrecord
    obtain ⟨p, hparts, hrecord⟩ := bind_ok hrecord
    have hheader : readMembers inside (Document.ofFields r.header) {} = .ok (r.parts []) := rfl
    rw [readMembers_append hheader] at hparts
    obtain ⟨columns, rfl⟩ := readMembers_parts hparts
    obtain ⟨_, -, hrecord⟩ := bind_ok hrecord
    cases hrecord
    rfl
  · cases h

/-! ## A column that is not read as it was written -/

section Fraction

variable {x y : Binary64} {ds : List Char} (hprint : x.render = '0' :: '.' :: ds) (hne : ds ≠ [])
  (hds : ∀ c ∈ ds, c.isDigit = true) (hvalue : Json.Numeral.value? ⟨false, ['0'], some ds, none⟩ = some (.float y))

include hprint hne hds hvalue

/-- A double with a fraction is scanned to what its digits are worth. -/
theorem scanValue_fraction (fuel : Nat) {rest : List Char} (hrest : Json.Ends rest) :
    Document.scanValue (fuel + 1) (x.render ++ rest) = (.number (.ok (.float y)), some rest) := by
  have hscan : Json.scanNumber ('0' :: '.' :: (ds ++ rest)) = .token (.ok (.float y)) rest := by
    unfold Json.scanNumber
    rw [Json.scanNumeral_fraction hne hds hrest]
    simp only
    rw [hvalue]
  rw [hprint, List.cons_append, List.cons_append, Document.scanValue, if_pos (.inr rfl), hscan]
  all_goals decide

/-- **A row with such a double is read as one with the double that its digits are worth.** -/
theorem decode_fraction :
    decode (single "x" (.number (.float x))).encode ⟨"k"⟩ = .ok (single "x" (.number (.float y))) := by
  have hversion : (single "x" (.number (.float x))).version ≤ greatestVersion := by
    show 1 ≤ greatestVersion
    decide
  obtain ⟨behind, tail, fuel, htail, hfuel, hscan⟩ := scan_encode hversion
  obtain ⟨lead, before, after, text, body, rfl, hlead, hbefore, hafter, htext, hbody⟩ := htail
  obtain rfl : text = x.render := htext
  have hends := hbody.ends []
  simp only [List.length_append, List.length_cons] at hfuel
  have hlength : x.render.length = ds.length + 2 := congrArg List.length hprint
  obtain ⟨fuel, rfl⟩ : ∃ n, fuel = n + 3 := ⟨fuel - 3, by omega⟩
  have hhead : ∃ c cs, x.render = c :: cs ∧ Document.isBlank c = false ∧ c ≠ ']' :=
    ⟨_, _, hprint, by decide, by decide⟩
  have hfield := Json.scanMembers_field hlead hbefore hafter "x" hhead
    (scanValue_fraction hprint hne hds hvalue fuel hends)
  have hnone : Json.WholeFields [] := trivial
  have hclose := Json.scanMembers_spells hnone hbody (fuel + 1) (by omega) []
  rw [hclose, List.append_nil] at hfield
  rw [hfield] at hscan
  unfold decode Json.decodeText
  rw [hscan]
  rfl

end Fraction

end Row
end Demarcate
