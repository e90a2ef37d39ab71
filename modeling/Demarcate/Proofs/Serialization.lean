import Demarcate.Config
import Demarcate.Definition
import Demarcate.Proofs.Grammar
import Demarcate.Proofs.Json.Records
/-!
# Serialization — definitions, directives and configurations as text

A definition, a directive and a configuration are read back from their JSON, in either layout, as what they were
(`settings_survive_text`): every string as it stands, every list in its order, a mode from its name and a data source
from its kind, whose other fields are set aside first.  A name is read if it can be one, and a configuration if nothing
is wrong with it.  So what is read from any text at all is a configuration that its own text gives again.
-/
namespace Demarcate

open Json (DecodeError Decodes Document Source)
open Json.Document (RecordShape)

/-- The name is one that a data source can have. -/
def BackendName.Valid (b : BackendName) : Prop := parse b.text = .ok b

instance (b : BackendName) : Decidable b.Valid := inferInstanceAs (Decidable (BackendName.parse b.text = .ok b))

theorem BackendName.parse_ok {text : String} {b : BackendName} (h : parse text = .ok b) : b.text = text := by
  obtain ⟨rfl, -⟩ := parse_ok_iff.1 h
  rfl

/-! ## Directives and definitions -/

namespace Directive

theorem decodes_kinds (ks : List ErrorKind) : Decodes readKinds 1 (kindsToJson ks) ks :=
  Decodes.list fun k _ => (Decodes.string k.text).map ErrorKind.mk

theorem decodes (d : Directive) : Decodes decode 2 d.toJson d := by
  have hparts : Decodes (shape.decode {}) 2 d.toJson ⟨some d.rollbackOn, some d.noRollbackOn⟩ := by
    refine RecordShape.decodes (fun inside hinside => ?_) rfl
    have hrollback := decodes_kinds d.rollbackOn inside hinside
    have hnoRollback := decodes_kinds d.noRollbackOn inside hinside
    rw [RecordShape.readMembers_cons rfl rfl (bind_of_ok hrollback _),
      RecordShape.readMembers_cons rfl rfl (bind_of_ok hnoRollback _)]
    rfl
  exact hparts.map _

theorem whole_kinds (ks : List ErrorKind) : (kindsToJson ks).Whole := by
  have hkind : ∀ k : ErrorKind, (Json.string k.text).Whole := fun _ => trivial
  exact Json.wholeItems_map hkind ks

theorem whole (d : Directive) : d.toJson.Whole := ⟨whole_kinds d.rollbackOn, whole_kinds d.noRollbackOn, trivial⟩

end Directive

theorem Mode.parse_name (m : Mode) : parse m.name = .ok m := by
  cases m <;> rfl

theorem Definition.decodes {d : Definition} (hd : d.backend.Valid) : Decodes decode 3 d.toJson d := by
  have hparts : Decodes (shape.decode {}) 3 d.toJson
      ⟨some d.operation, some d.mode, some d.directive, some d.backend⟩ := by
    refine RecordShape.decodes (fun inside hinside => ?_) rfl
    have hzero := hinside.mono (Nat.zero_le 2)
    have hmode : Decodes readMode 0 (.string d.mode.name) d.mode := .parsed d.mode.parse_name id
    have hbackend : Decodes readBackend 0 (.string d.backend.text) d.backend := .parsed hd NameError.message
    rw [RecordShape.readMembers_cons rfl rfl (bind_of_ok (Decodes.string d.operation inside hzero) _),
      RecordShape.readMembers_cons rfl rfl (bind_of_ok (hmode inside hzero) _),
      RecordShape.readMembers_cons rfl rfl (bind_of_ok (d.directive.decodes inside hinside) _),
      RecordShape.readMembers_cons rfl rfl (bind_of_ok (hbackend inside hzero) _)]
    rfl
  exact hparts.map _

theorem Definition.whole (d : Definition) : d.toJson.Whole := ⟨trivial, trivial, d.directive.whole, trivial, trivial⟩

/-! ## Data sources -/

theorem Git.Signature.decodes (s : Signature) : Decodes decode 1 s.toJson s := by
  have hparts : Decodes (shape.decode {}) 1 s.toJson ⟨some s.name, some s.email⟩ := by
    refine RecordShape.decodes (fun inside hinside => ?_) rfl
    rw [RecordShape.readMembers_cons rfl rfl (bind_of_ok (Decodes.string s.name inside hinside) _),
      RecordShape.readMembers_cons rfl rfl (bind_of_ok (Decodes.string s.email inside hinside) _)]
    rfl
  exact hparts.map _

namespace SourceConfig

theorem decodes_path (path : String) : Decodes readPath 0 (.string path) path := fun _ _ => rfl

/-- The fields of a repository other than its kind. -/
def fieldsOf (g : GitConfig) : List (String × Json) :=
  [("path", .string g.path), ("create_if_missing", .bool g.createIfMissing), ("signature", g.signature.toJson)]

theorem decodes_fields (g : GitConfig) : Decodes (gitShape.decode {}) 2 (.object (fieldsOf g))
    ⟨some g.path, some g.createIfMissing, some g.signature⟩ := by
  refine RecordShape.decodes (fun inside hinside => ?_) rfl
  have hzero := hinside.mono (Nat.zero_le 1)
  unfold fieldsOf
  rw [RecordShape.readMembers_cons rfl rfl (bind_of_ok (decodes_path g.path inside hzero) _),
    RecordShape.readMembers_cons rfl rfl (bind_of_ok (Decodes.bool g.createIfMissing inside hzero) _),
    RecordShape.readMembers_cons rfl rfl (bind_of_ok (g.signature.decodes inside hinside) _)]
  rfl

/-- A field that is not the kind is set aside as it is, once it was found to be JSON. -/
theorem setAside_cons {inside : Source} {name : String} {d : Document} {j : Json} {kind kind' : Option Kind}
    {members others : List (Except Json.Fault String × Document)} (hname : name ≠ "kind")
    (hd : d.toJson inside = .ok j) (hrest : setAside inside members kind = .ok (kind', others)) :
    setAside inside ((.ok name, d) :: members) kind = .ok (kind', (.ok name, d) :: others) := by
  unfold setAside
  refine (if_neg hname).trans ?_
  refine (bind_of_ok hd _).trans ?_
  exact bind_of_ok hrest _

theorem setAside_fields (g : GitConfig) {inside : Source} (h : inside.Allows 1) :
    setAside inside (Document.ofFields (("kind", .string "git") :: fieldsOf g)) none =
      .ok (some .git, Document.ofFields (fieldsOf g)) := by
  obtain ⟨inner, henter, -⟩ := h.enter
  have hsignature : (Document.ofJson g.signature.toJson).toJson inside =
      .ok (Json.ofFields [("name", .string g.signature.name), ("email", .string g.signature.email)]) :=
    bind_of_ok henter _
  show setAside inside (Document.ofFields (fieldsOf g)) (some .git) = _
  exact setAside_cons (by decide) rfl (setAside_cons (by decide) rfl (setAside_cons (by decide) hsignature rfl))

theorem decodes (s : SourceConfig) : Decodes decode 2 s.toJson s := by
  intro source hsource
  obtain ⟨inside, henter, hinside⟩ := hsource.enter
  cases s with
  | memory => exact bind_of_ok henter _
  | git g =>
    refine (bind_of_ok henter _).trans ?_
    refine (bind_of_ok (setAside_fields g hinside) _).trans ?_
    show (do
      let p ← gitShape.decode {} .setAside (Document.ofJson (.object (fieldsOf g)))
      return SourceConfig.git ⟨p.path.getD "", p.createIfMissing.getD true, p.signature.getD default⟩) = _
    exact bind_of_ok (decodes_fields g .setAside trivial) _

theorem whole (s : SourceConfig) : s.toJson.Whole := by
  cases s with
  | memory => exact ⟨trivial, trivial⟩
  | git g => exact ⟨trivial, trivial, trivial, ⟨trivial, trivial, trivial⟩, trivial⟩

end SourceConfig

/-! ## Configurations -/

namespace EngineConfig

/-- Every data source has a name that can be one. -/
def Named (c : EngineConfig) : Prop := ∀ name s, c.sources.get? name = some s → name.Valid

theorem readName_ok {name : BackendName} (h : name.Valid) : readName name.text = .ok name := by
  unfold readName
  rw [h]

theorem decodes {c : EngineConfig} (hc : c.Named) : Decodes decode 4 c.toJson c := by
  have hsources : Decodes (Document.sortedMap readName SourceConfig.decode) 3
      (.object (c.sources.entries.map fun e => (e.1.text, e.2.toJson))) c.sources :=
    Decodes.sortedMap fun e he => ⟨readName_ok (hc e.1 e.2 (SortedMap.get?_eq_some_iff.2 he)), e.2.decodes⟩
  have hparts : Decodes (shape.decode {}) 4 c.toJson ⟨some c.sources, some c.cleanupOnOpen⟩ := by
    refine RecordShape.decodes (fun inside hinside => ?_) rfl
    have hcleanup := Decodes.bool c.cleanupOnOpen inside (hinside.mono (Nat.zero_le 3))
    rw [RecordShape.readMembers_cons rfl rfl (bind_of_ok (hsources inside hinside) _),
      RecordShape.readMembers_cons rfl rfl (bind_of_ok hcleanup _)]
    rfl
  exact hparts.map _

/-- What is read of a document has names that can be ones. -/
theorem named_of_decode {source : Source} {d : Document} {c : EngineConfig} (h : decode source d = .ok c) :
    c.Named := by
  obtain ⟨p, hp, h⟩ := bind_ok h
  cases h
  have hkeeps : shape.Keeps fun p => ∀ m, p.sources = some m → ∀ name s, m.get? name = some s → name.Valid := by
    intro f hf source d p p' hnamed hread m hm name s hs
    rcases List.mem_cons.1 hf with rfl | hf
    · obtain ⟨m', hsources, hread⟩ := bind_ok hread
      cases hread
      cases hm
      obtain ⟨text, hname⟩ := Json.sortedMap_key hsources hs
      unfold readName at hname
      cases hparse : BackendName.parse text with
      | error e =>
        rw [hparse] at hname
        cases hname
      | ok name' =>
        rw [hparse] at hname
        cases hname
        unfold BackendName.Valid
        rw [BackendName.parse_ok hparse, hparse]
    · obtain rfl := List.mem_singleton.1 hf
      obtain ⟨b, -, hread⟩ := bind_ok hread
      cases hread
      exact hnamed m hm name s hs
  have hnone : ∀ m, ({} : Parts).sources = some m → ∀ name s, m.get? name = some s → name.Valid := fun m hm => by
    cases hm
  have hnamed := RecordShape.decode_keeps hkeeps hnone hp
  intro name s hs
  cases hm : p.sources with
  | none =>
    rw [hm] at hs
    cases hs
  | some m =>
    rw [hm] at hs
    exact hnamed m hm name s hs

theorem ofText_ok_iff {text : String} {c : EngineConfig} :
    ofText text = .ok c ↔ Json.decodeText decode text = .ok c ∧ c.validate = .ok () := by
  unfold ofText
  cases hread : Json.decodeText decode text with
  | error e => exact ⟨nofun, nofun⟩
  | ok c' =>
    cases hvalid : c'.validate with
    | error e =>
      refine ⟨fun h => ?_, ?_⟩
      · simp only [hvalid, Except.map] at h
        cases h
      · rintro ⟨⟨⟩, h⟩
        exact nomatch hvalid.symm.trans h
    | ok _ =>
      simp only [hvalid, Except.map, Except.ok.injEq]
      exact ⟨fun h => ⟨h, h ▸ hvalid⟩, fun h => h.1⟩

/-- **A configuration that is accepted is read back from its text.** -/
theorem ofText_layouts {c : EngineConfig} (hnamed : c.Named) (hvalid : c.validate = .ok ()) {text : String}
    (htext : text ∈ c.toJson.layouts) : ofText text = .ok c := by
  have hwhole : c.toJson.Whole := ⟨Json.wholeFields_map SourceConfig.whole c.sources.entries, trivial, trivial⟩
  exact ofText_ok_iff.2 ⟨(decodes hnamed).text hwhole (by decide) htext, hvalid⟩

end EngineConfig

/-- **Definitions, directives and configurations survive their texts.**  A definition with a name that its data source
can have, any directive, and a configuration that is accepted are read back from either layout of their JSON as what
they were.  A configuration that is read from any text is accepted, all its names can be ones, and it is read back from
its own text. -/
theorem settings_survive_text :
    (∀ d : Definition, d.backend.Valid → ∀ text ∈ d.toJson.layouts, Json.decodeText Definition.decode text = .ok d) ∧
      (∀ d : Directive, ∀ text ∈ d.toJson.layouts, Json.decodeText Directive.decode text = .ok d) ∧
      (∀ c : EngineConfig, c.Named → c.validate = .ok () → ∀ text ∈ c.toJson.layouts,
        EngineConfig.ofText text = .ok c) ∧
      ∀ (text : String) (c : EngineConfig), EngineConfig.ofText text = .ok c →
        c.validate = .ok () ∧ c.Named ∧ ∀ again ∈ c.toJson.layouts, EngineConfig.ofText again = .ok c := by
  refine ⟨fun d hd text htext => ?_, fun d text htext => ?_, fun c hnamed hvalid text htext => ?_, ?_⟩
  · exact (Definition.decodes hd).text d.whole (by decide) htext
  · exact d.decodes.text d.whole (by decide) htext
  · exact EngineConfig.ofText_layouts hnamed hvalid htext
  · intro text c h
    obtain ⟨hread, hvalid⟩ := EngineConfig.ofText_ok_iff.1 h
    have hnamed := EngineConfig.named_of_decode (Json.decodeText_ok hread)
    exact ⟨hvalid, hnamed, fun again hagain => EngineConfig.ofText_layouts hnamed hvalid hagain⟩

/-- A definition on a named data source, and a configuration with a store in memory and a repository. -/
theorem archive_survives_text :
    let d : Definition := { operation := "save", mode := .requiresNew, backend := ⟨"archive"⟩ }
    let c := EngineConfig.inMemory.withSource ⟨"archive"⟩ (.git { path := "var/archive" })
    d.backend.Valid ∧ c.Named ∧ c.validate = .ok () ∧ Json.decodeText Definition.decode d.toJson.toText = .ok d ∧
      EngineConfig.ofText c.toJson.toText = .ok c ∧
      ∀ again ∈ c.toJson.layouts, EngineConfig.ofText again = .ok c := by
  intro d c
  have hd : d.backend.Valid := by decide +kernel
  have hnamed : c.Named := by
    intro name s hs
    have hvalid : ∀ e ∈ c.sources.entries, BackendName.parse e.1.text = .ok e.1 := by decide +kernel
    exact hvalid (name, s) (SortedMap.get?_eq_some_iff.1 hs)
  have hvalid : c.validate = .ok () := by decide +kernel
  obtain ⟨hdefinition, -, hconfig, hagain⟩ := settings_survive_text
  have htext := hconfig c hnamed hvalid c.toJson.toText List.mem_cons_self
  exact ⟨hd, hnamed, hvalid, hdefinition d hd d.toJson.toText List.mem_cons_self, htext, (hagain _ c htext).2.2⟩

end Demarcate
