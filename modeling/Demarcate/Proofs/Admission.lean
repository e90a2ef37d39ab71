import Demarcate.Name.Codec
import Demarcate.Proofs.Git.BranchNames
import Demarcate.Proofs.Grammar
import Demarcate.Proofs.Serialization
/-!
# Admission — by which ways a name comes in

A data source's name is checked on every way: where it is given, where it is read as a value and where it is read as the
name of an entry.  A table's name and a key are checked where they are given, and a generated key needs no check; but
as JSON any string is read as either of them.  So the names of data sources are those of the grammar, as are those of
tables and rows that nobody read from JSON (`names_are_checked_unless_read`), and a text from which no folder or file
could be made is read as a name (`hidden_name_is_read`).
-/
namespace Demarcate

open Json (DecodeError decodeText)
open Json.Document (Decoder readString)
open NameGrammar (tables keys backends)

/-! ## The ways -/

/-- The ways to a table's name, other than by reading one. -/
inductive TableName.Made : TableName → Prop where
  | given {text : String} {t : TableName} (h : TableName.parse text = .ok t) : Made t

/-- The ways to a key, other than by reading one. -/
inductive RowKey.Made : RowKey → Prop where
  | given {text : String} {k : RowKey} (h : RowKey.parse text = .ok k) : Made k
  | generated (u : Ulid) : Made (RowKey.generate u)

/-- The ways to a data source's name. -/
inductive BackendName.Made : BackendName → Prop where
  | given {text : String} {b : BackendName} (h : BackendName.parse text = .ok b) : Made b
  | default : Made BackendName.default
  | read {source : Json.Source} {d : Json.Document} {b : BackendName} (h : Definition.readBackend source d = .ok b) :
      Made b
  | entry {text : String} {b : BackendName} (h : EngineConfig.readName text = .ok b) : Made b

theorem TableName.made_iff (t : TableName) : Made t ↔ tables.Accepts t.text := by
  constructor
  · rintro ⟨h⟩
    obtain ⟨rfl, haccepts⟩ := parse_ok_iff.1 h
    exact haccepts
  · exact fun h => .given (parse_ok_iff.2 ⟨rfl, h⟩)

/-- The digits of an identifier are all that a generated key has. -/
theorem RowKey.accepts_generate (u : Ulid) : keys.Accepts (generate u).text := by
  have hdigits : Ulid.alphabet.all (fun d => NameRule.allowed d.toLower) = true := by decide
  have hlength : u.lowerText.toList.length = 26 := Git.RefName.length_lowerText u
  have hsize : u.lowerText.utf8ByteSize ≤ 104 := by
    have := Git.RefName.utf8ByteSize_ofList_le u.lowerText.toList
    rw [String.ofList_toList, hlength] at this
    exact this
  have hnone : u.lowerText.utf8ByteSize ≠ 0 := fun h => by
    rw [String.utf8ByteSize_eq_zero_iff.1 h] at hlength
    cases hlength
  refine ⟨⟨Nat.one_le_iff_ne_zero.2 hnone, Nat.le_trans hsize (by decide)⟩, fun _ _ => trivial, fun c hc => ?_,
    fun ⟨_, hword, _⟩ => nomatch hword⟩
  have hlist : (generate u).text.toList = (Ulid.digits Ulid.width u.value).map Char.toLower := String.toList_ofList
  rw [hlist] at hc
  obtain ⟨d, hd, rfl⟩ := List.mem_map.1 hc
  exact (NameRule.allowed_iff _).1 (List.all_eq_true.1 hdigits d (Git.mem_digits hd))

theorem RowKey.made_iff (k : RowKey) : Made k ↔ keys.Accepts k.text := by
  constructor
  · intro h
    cases h with
    | given h =>
      obtain ⟨rfl, haccepts⟩ := parse_ok_iff.1 h
      exact haccepts
    | generated u => exact accepts_generate u
  · exact fun h => .given (parse_ok_iff.2 ⟨rfl, h⟩)

theorem BackendName.made_iff (b : BackendName) : Made b ↔ backends.Accepts b.text := by
  have hparsed : ∀ {text}, parse text = .ok b → backends.Accepts b.text := fun h => by
    obtain ⟨rfl, haccepts⟩ := parse_ok_iff.1 h
    exact haccepts
  constructor
  · intro h
    cases h with
    | given h => exact hparsed h
    | default =>
      have hdefault : parse "default" = .ok BackendName.default := by decide
      exact hparsed hdefault
    | read h =>
      obtain ⟨s, -, h⟩ := bind_ok h
      cases hs : parse s with
      | error e => rw [hs] at h; cases h
      | ok b' => rw [hs] at h; cases h; exact hparsed hs
    | entry h =>
      unfold EngineConfig.readName at h
      split at h
      · cases h
        exact hparsed ‹_›
      · cases h
  · exact fun h => .given (parse_ok_iff.2 ⟨rfl, h⟩)

/-! ## Reading -/

/-- Where a text is read as something, what is made of that is what the whole comes to. -/
theorem decodeText_of_ok {α β : Type} {read : Decoder α} {text : String} {a : α} (h : decodeText read text = .ok a)
    (f : α → Except DecodeError β) : decodeText (fun source d => do f (← read source d)) text = f a := by
  unfold decodeText at h ⊢
  simp only at h ⊢
  obtain ⟨a', ha, h⟩ := bind_ok h
  split at h
  · cases h
    rw [ha, ok_bind]
    cases f a <;> rfl
  · cases h

/-- What becomes of a text that is the string `s`, where it is read as a name. -/
structure ReadAsName (text s : String) : Prop where
  /-- A data source's name is read where it can be one. -/
  backend : ∀ b, decodeText Definition.readBackend text = .ok b ↔ BackendName.parse s = .ok b
  refused : ∀ e, BackendName.parse s = .error e →
    decodeText Definition.readBackend text = .error (.data (Json.Document.withoutPlace e.message))
  /-- Every string is read as a table's name, and as a key. -/
  table : decodeText TableName.decode text = .ok ⟨s⟩
  key : decodeText RowKey.decode text = .ok ⟨s⟩
  /-- So reading a table's name does what making one does for the names of the grammar alone. -/
  alike_table : (∀ t, decodeText TableName.decode text = .ok t ↔ TableName.parse s = .ok t) ↔ tables.Accepts s
  alike_key : (∀ k, decodeText RowKey.decode text = .ok k ↔ RowKey.parse s = .ok k) ↔ keys.Accepts s

theorem readAsName {text s : String} (h : decodeText readString text = .ok s) : ReadAsName text s := by
  have hbackend : decodeText Definition.readBackend text = _ := decodeText_of_ok h _
  have htable : decodeText TableName.decode text = .ok ⟨s⟩ := decodeText_of_ok h fun s => .ok (TableName.mk s)
  have hkey : decodeText RowKey.decode text = .ok ⟨s⟩ := decodeText_of_ok h fun s => .ok (RowKey.mk s)
  refine ⟨fun b => ?_, fun e he => ?_, htable, hkey, ?_, ?_⟩
  · rw [hbackend]
    cases BackendName.parse s with
    | error e => exact ⟨nofun, nofun⟩
    | ok b' => simp only [Except.ok.injEq]
  · rw [hbackend, he]
  · rw [htable]
    refine ⟨fun hall => (TableName.parse_ok_iff.1 ((hall _).1 rfl)).2, fun haccepts t => ?_⟩
    rw [TableName.parse_ok_iff, and_iff_left haccepts, Except.ok.injEq, eq_comm]
  · rw [hkey]
    refine ⟨fun hall => (RowKey.parse_ok_iff.1 ((hall _).1 rfl)).2, fun haccepts k => ?_⟩
    rw [RowKey.parse_ok_iff, and_iff_left haccepts, Except.ok.injEq, eq_comm]

/-- **A name is checked on every way but one.**  A string comes to be a data source's name only where the grammar has
it, on whichever way, and a table's name or a key too, if it is given or generated.  As JSON it is read as a data
source's name where it can be one, and as a table's name or a key in any case. -/
theorem names_are_checked_unless_read (s : String) :
    (BackendName.Made ⟨s⟩ ↔ backends.Accepts s) ∧ (TableName.Made ⟨s⟩ ↔ tables.Accepts s) ∧
    (RowKey.Made ⟨s⟩ ↔ keys.Accepts s) ∧
    (∀ text ∈ (Json.string s).layouts, decodeText readString text = .ok s) ∧
    ∀ text, decodeText readString text = .ok s → ReadAsName text s :=
  ⟨BackendName.made_iff _, TableName.made_iff _, RowKey.made_iff _,
    fun _ htext => (Json.Decodes.string s).text trivial (Nat.zero_le _) htext, fun _ => readAsName⟩

/-- A name that can be one is read as what it is. -/
theorem users_is_read : decodeText readString "\"users\"" = .ok "users" ∧
    decodeText Definition.readBackend "\"users\"" = .ok ⟨"users"⟩ ∧
    (∀ t, decodeText TableName.decode "\"users\"" = .ok t ↔ TableName.parse "users" = .ok t) := by
  obtain ⟨-, htable, -, hlayouts, hread⟩ := names_are_checked_unless_read "users"
  have htext : decodeText readString "\"users\"" = .ok "users" := hlayouts _ List.mem_cons_self
  have h := hread _ htext
  have hgiven : TableName.parse "users" = .ok ⟨"users"⟩ := by decide
  exact ⟨htext, (h.backend _).2 (by decide), h.alike_table.2 (htable.1 (.given hgiven))⟩

/-- A path out of the store's folder is read as a table's name, and no text at all as a key: neither can be given. -/
theorem hidden_name_is_read :
    decodeText TableName.decode "\"../x\"" = .ok ⟨"../x"⟩ ∧ TableName.parse "../x" = .error (.badStart '.') ∧
    decodeText RowKey.decode "\"\"" = .ok ⟨""⟩ ∧ RowKey.parse "" = .error .empty ∧
    ¬ ∀ text s, decodeText readString text = .ok s →
      ∀ t, decodeText TableName.decode text = .ok t ↔ TableName.parse s = .ok t := by
  have htable : decodeText readString "\"../x\"" = .ok "../x" :=
    (Json.Decodes.string "../x").text trivial (Nat.zero_le _) List.mem_cons_self
  have hkey : decodeText readString "\"\"" = .ok "" :=
    (Json.Decodes.string "").text trivial (Nat.zero_le _) List.mem_cons_self
  have hrejected : TableName.parse "../x" = .error (.badStart '.') := by decide
  refine ⟨(readAsName htable).table, hrejected, (readAsName hkey).key, by decide, fun hall => ?_⟩
  have haccepted := (hall _ _ htable _).1 (readAsName htable).table
  rw [hrejected] at haccepted
  cases haccepted

end Demarcate
