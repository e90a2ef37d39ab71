import Demarcate.Proofs.Git.BranchNames
import Demarcate.Proofs.Git.Chronicle
import Demarcate.Proofs.Opening
/-!
# Founding — how a directory comes to a repository that can be used

A directory is opened again and again, by each of the functions that open repositories, alone or with the other data
sources of a database (`Engine.Opening`), and each time under another signature.  It has no repository at first; then
it has one that was made and not started (`Disk.Blank`), or one whose `main` is at its first commit (`Disk.Started`).

No opening leads back (`Advances`), and a repository that was made and not started is what an opening leaves that fails
for its signature (`Engine.Founders`).  Whoever opens the directory after that is given a handle on it all the same,
through which nothing can be done; everything that one begins with can be done through any other
(`opened_repository_is_usable`).
-/
namespace Demarcate

open Git (Disk Handle Path Repository Signature)
open Git.RefName (main)

/-! ## What can be done through a handle -/

namespace Stores

variable {st : Stores} {i : Nat} {r : Repository}

/-- The tip of `main` can be read, whichever the table, and a transaction can begin there, whatever its identifier. -/
structure Usable (st : Stores) (i : Nat) : Prop where
  reads : ∃ tip, (st.repository i).tip = .ok tip ∧ ∀ t, ∃ rows, (st.repository i).scanTable t tip = .ok rows
  begins : ∀ u : Ulid, ∃ base, (st.beginBranch i u.lowerText).1 = .ok base

/-- There is no `main` to read or to begin at. -/
structure Hollow (st : Stores) (i : Nat) : Prop where
  tip : (st.repository i).tip = .error (.refNotFound main)
  begins : ∀ id, st.beginBranch i id = (.error (.refNotFound main), st)

theorem Hollow.not_usable (h : st.Hollow i) : ¬ st.Usable i := fun hu => by
  obtain ⟨tip, htip, -⟩ := hu.reads
  rw [h.tip] at htip
  cases htip

end Stores

/-! ## How far a directory has come -/

namespace Git

namespace Disk

/-- No repository was made in the directory. -/
def Vacant (d : Disk) (x : Path) : Prop := d.repositories.get? x = none

/-- A repository was made in the directory and not started. -/
def Blank (d : Disk) (x : Path) : Prop := ∃ number, d.repositories.get? x = some { number }

/-- The repository in the directory has its first commit, and nothing was done to it since. -/
def Started (d : Disk) (x : Path) : Prop :=
  ∃ number author r, ({ number } : Repository).start author = .ok r ∧ d.repositories.get? x = some r

/-- `main` is at a commit that can be read. -/
def HasMain (d : Disk) (x : Path) : Prop := ∃ r tip, d.repositories.get? x = some r ∧ r.tip = .ok tip

variable {d : Disk} {x : Path}

theorem repository_of_get? {r : Repository} (h : d.repositories.get? x = some r) : d.repository x = r := by
  unfold repository
  rw [h]
  rfl

end Disk

namespace Repository

variable {r : Repository} {number : Nat} {author : Signature}

theorem tip_blank : ({ number } : Repository).tip = .error (.refNotFound RefName.main) := by
  obtain ⟨id, hid⟩ | hnone := resolve_cases { number } RefName.main
  · obtain ⟨n, -, href, -⟩ := resolve_eq_ok_iff.1 hid
    cases href
  · exact hnone

theorem tip_started (h : ({ number } : Repository).start author = .ok r) : r.tip = .ok ⟨number, 0⟩ := by
  obtain ⟨-, -, -, hmain, -⟩ := start_fresh h
  obtain ⟨c, hc, -⟩ := start_tip h
  exact resolve_of_ref RefName.normal?_main hmain hc

theorem scanTable_started (h : ({ number } : Repository).start author = .ok r) (t : TableName) :
    r.scanTable t ⟨number, 0⟩ = .ok [] := by
  obtain ⟨c, hc, htree⟩ := start_tip h
  unfold scanTable
  rw [treeAt_eq hc, htree]
  rfl

end Repository

/-- What an opening comes to for a directory, if `foundered` is what has to be so where a repository is made and not
started. -/
structure Advances (x : Path) (foundered : Prop) (d d' : Disk) : Prop where
  vacant : d.Vacant x → d'.Vacant x ∨ d'.Started x ∨ d'.Blank x ∧ foundered
  blank : d.Blank x → d'.Blank x ∨ d'.Started x
  started : d.Started x → d'.Started x

namespace Advances

variable {x : Path} {foundered foundered' : Prop} {d d₁ d₂ : Disk}

theorem of_get? (h : d₁.repositories.get? x = d.repositories.get? x) : Advances x foundered d d₁ := by
  refine ⟨fun hv => .inl (h.trans hv), ?_, ?_⟩
  · rintro ⟨number, hb⟩
    exact .inl ⟨number, h.trans hb⟩
  · rintro ⟨number, author, r, hs, hr⟩
    exact ⟨number, author, r, hs, h.trans hr⟩

theorem imp (h : Advances x foundered d d₁) (hf : d.Vacant x → d₁.Blank x → foundered → foundered') :
    Advances x foundered' d d₁ := by
  refine ⟨fun hv => ?_, h.blank, h.started⟩
  obtain hv' | hs | ⟨hb, hfoundered⟩ := h.vacant hv
  · exact .inl hv'
  · exact .inr (.inl hs)
  · exact .inr (.inr ⟨hb, hf hv hb hfoundered⟩)

theorem trans (h₁ : Advances x foundered d d₁) (h₂ : Advances x foundered' d₁ d₂) :
    Advances x (foundered ∨ foundered') d d₂ := by
  refine ⟨fun hv => ?_, fun hb => ?_, fun hs => h₂.started (h₁.started hs)⟩
  · obtain hv | hs | ⟨hb, hf⟩ := h₁.vacant hv
    · exact (h₂.imp fun _ _ => .inr).vacant hv
    · exact .inr (.inl (h₂.started hs))
    · obtain hb | hs := h₂.blank hb
      · exact .inr (.inr ⟨hb, .inl hf⟩)
      · exact .inr (.inl hs)
  · obtain hb | hs := h₁.blank hb
    · exact h₂.blank hb
    · exact .inr (h₂.started hs)

end Advances

/-! ### Making a repository -/

/-- Nothing was opened, and one of the signatures is one that nothing can be committed under. -/
def Refused {ε α : Type} (made : Except ε α) (signatures : List Signature) : Prop :=
  (∃ err, made = .error err) ∧ ∃ s ∈ signatures, ¬ s.Usable

section Refused

variable {ε ε' α α' : Type} {signatures : List Signature}

theorem not_refused_ok {a : α} : ¬ Refused (.ok a : Except ε α) signatures := by
  rintro ⟨⟨err, h⟩, -⟩
  cases h

/-- Whatever the error is reported as. -/
theorem Refused.error {made : Except ε α} {err : ε'} (h : Refused made signatures) :
    Refused (.error err : Except ε' α') signatures := ⟨⟨err, rfl⟩, h.2⟩

theorem Refused.mono {made : Except ε α} {signatures' : List Signature} (h : Refused made signatures)
    (hs : ∀ s ∈ signatures, s ∈ signatures') : Refused made signatures' := by
  obtain ⟨hmade, s, hmem, hauthor⟩ := h
  exact ⟨hmade, s, hs s hmem, hauthor⟩

end Refused

section Here

variable {d : Disk} {x : Path} {author : Signature}

theorem Disk.get?_setRepository (d : Disk) (site : Path) (r : Repository) :
    (d.setRepository site r).repositories.get? x = if x = site then some r else d.repositories.get? x :=
  SortedMap.get?_insert ..

/-- What is started has never been started before. -/
theorem Disk.Started.of_start {number : Nat} {r : Repository} (hblank : d.repository x = { number })
    (hs : (d.repository x).start author = .ok r) : (d.setRepository x r).Started x :=
  ⟨number, author, r, hblank ▸ hs, (get?_setRepository d x r).trans (if_pos rfl)⟩

theorem Disk.Started.not_start (h : d.Started x) (author : Signature) (r : Repository) :
    (d.repository x).start author ≠ .ok r := by
  obtain ⟨number, first, r₀, hs, hr⟩ := h
  rw [repository_of_get? hr]
  exact (Chronicle.upright_first hs ⟨"", x, author, ∅⟩).not_started

theorem Disk.Vacant.repository (h : d.Vacant x) : d.repository x = { number := d.repositories.size } := by
  unfold Disk.repository
  rw [h]
  rfl

theorem Advances.start {foundered : Prop} {r : Repository} (hs : (d.repository x).start author = .ok r) :
    Advances x foundered d (d.setRepository x r) := by
  refine ⟨fun hv => .inr (.inl (.of_start hv.repository hs)), ?_, fun h => absurd hs (h.not_start author r)⟩
  rintro ⟨number, hb⟩
  exact .inr (.of_start (Disk.repository_of_get? hb) hs)

/-- What cannot be started stays as it was, and is made if it was not there. -/
theorem Advances.founder {e : StorageError} (hs : (d.repository x).start author = .error e) :
    Advances x (¬ author.Usable) d (d.setRepository x (d.repository x)) := by
  have hat : (d.setRepository x (d.repository x)).repositories.get? x = some (d.repository x) :=
    (Disk.get?_setRepository d x _).trans (if_pos rfl)
  refine ⟨fun hv => ?_, ?_, ?_⟩
  · refine .inr (.inr ⟨⟨_, hat.trans (congrArg some hv.repository)⟩, fun hauthor => ?_⟩)
    obtain ⟨r, hr⟩ := Repository.start_usable d.repositories.size hauthor
    rw [hv.repository, hr] at hs
    cases hs
  · rintro ⟨number, hb⟩
    exact .inl ⟨number, hat.trans (congrArg some (Disk.repository_of_get? hb))⟩
  · rintro ⟨number, first, r₀, hs₀, hr₀⟩
    exact ⟨number, first, r₀, hs₀, hat.trans (congrArg some (Disk.repository_of_get? hr₀))⟩

end Here

/-- A repository that is made is started, unless the signature does not allow that. -/
theorem Advances.initAt (d : Disk) (path : String) (author : Signature) (x : Path) :
    Advances x (Refused (Handle.initAt d path author).1 [author]) d (Handle.initAt d path author).2 := by
  unfold Handle.initAt
  simp only
  generalize Disk.outOfDotGit (siteOf path) = site
  split
  · exact .of_get? rfl
  by_cases hx : x = site
  · subst hx
    cases hs : (d.repository x).start author with
    | ok r => exact .start hs
    | error e => exact (founder hs).imp fun _ _ hauthor => ⟨⟨e, rfl⟩, author, List.mem_singleton_self _, hauthor⟩
  · have helsewhere : ∀ foundered r, Advances x foundered d (d.setRepository site r) := fun _ r =>
      .of_get? ((Disk.get?_setRepository d site r).trans (if_neg hx))
    cases (d.repository site).start author with
    | ok r => exact helsewhere _ r
    | error e => exact helsewhere _ _

theorem Advances.openOrInitAt (d : Disk) (path : String) (author : Signature) (x : Path) :
    Advances x (Refused (Handle.openOrInitAt d path author).1 [author]) d (Handle.openOrInitAt d path author).2 := by
  unfold Handle.openOrInitAt
  split
  · exact .of_get? rfl
  · exact initAt d path author x

/-- A repository that `initAt` returns was started then. -/
theorem Disk.Started.initAt {d d' : Disk} {path : String} {author : Signature} {h : Handle}
    (hinit : Handle.initAt d path author = (.ok h, d')) (hstage : d.Vacant h.site ∨ d.Started h.site ∨ d.Blank h.site) :
    d'.Started h.site := by
  unfold Handle.initAt at hinit
  simp only at hinit
  generalize Disk.outOfDotGit (siteOf path) = site at hinit
  split at hinit
  · cases hinit
  split at hinit
  · rename_i r hs
    cases hinit
    obtain hv | hstarted | ⟨number, hb⟩ := hstage
    · exact .of_start hv.repository hs
    · exact absurd hs (hstarted.not_start author r)
    · exact .of_start (repository_of_get? hb) hs
  · cases hinit

end Git

/-! ## Openings -/

namespace Stores

variable {x : Path} {foundered foundered' : Prop} {st st₁ st₂ : Stores} {i : Nat}

/-- What is done about a disk is kept, with the handle if it comes to one. -/
def keep (st : Stores) : Except StorageError Handle × Disk → Except StorageError Nat × Stores
  | (.error e, disk) => (.error e, { st with disk })
  | (.ok h, disk) => (.ok st.handles.size, { st with disk, handles := st.handles.push h })

theorem openRepository_eq (st : Stores) (g : GitConfig) : st.openRepository g = st.keep
    (if g.createIfMissing then Handle.openOrInitAt st.disk g.path g.signature
      else (Handle.openAt st.disk g.path g.signature, st.disk)) := by
  unfold openRepository
  simp only
  generalize (if g.createIfMissing then Handle.openOrInitAt st.disk g.path g.signature
    else (Handle.openAt st.disk g.path g.signature, st.disk)) = made
  obtain ⟨opened, disk⟩ := made
  cases opened with
  | error e => rfl
  | ok h => rfl

/-- What an opening comes to: handles are only added, and the directory advances. -/
structure Advances (x : Path) (foundered : Prop) (st st' : Stores) : Prop where
  size : st.handles.size ≤ st'.handles.size
  handle : ∀ i, i < st.handles.size → st'.handle i = st.handle i
  disk : Git.Advances x foundered st.disk st'.disk

namespace Advances

theorem refl (x : Path) (foundered : Prop) (st : Stores) : Advances x foundered st st :=
  ⟨Nat.le_refl _, fun _ _ => rfl, .of_get? rfl⟩

theorem trans (h₁ : Advances x foundered st st₁) (h₂ : Advances x foundered' st₁ st₂) :
    Advances x (foundered ∨ foundered') st st₂ := by
  refine ⟨Nat.le_trans h₁.size h₂.size, fun i hi => ?_, h₁.disk.trans h₂.disk⟩
  exact (h₂.handle i (Nat.lt_of_lt_of_le hi h₁.size)).trans (h₁.handle i hi)

theorem imp (h : Advances x foundered st st₁)
    (hf : st.disk.Vacant x → st₁.disk.Blank x → foundered → foundered') : Advances x foundered' st st₁ :=
  ⟨h.size, h.handle, h.disk.imp hf⟩

/-- What did not founder is followed by something else. -/
theorem andThen (h₁ : Advances x False st st₁) (h₂ : Advances x foundered st₁ st₂) : Advances x foundered st st₂ :=
  (h₁.trans h₂).imp fun _ _ hf => hf.resolve_left id

/-- What was opened did not founder. -/
theorem of_ok {ε α : Type} {a : α} {signatures : List Signature}
    (h : Advances x (Git.Refused (.ok a : Except ε α) signatures) st st₁) : Advances x foundered st st₁ :=
  h.imp fun _ _ hf => absurd hf Git.not_refused_ok

theorem keep {made : Except StorageError Handle × Disk} {signatures : List Signature}
    (h : Git.Advances x (Git.Refused made.1 signatures) st.disk made.2) :
    Advances x (Git.Refused (st.keep made).1 signatures) st (st.keep made).2 := by
  obtain ⟨opened, disk⟩ := made
  cases opened with
  | error e => exact ⟨Nat.le_refl _, fun _ _ => rfl, h.imp fun _ _ => .error⟩
  | ok handle =>
    refine ⟨?_, fun i hi => getD_push_of_lt _ _ _ hi, h.imp fun _ _ hf => ?_⟩
    · show st.handles.size ≤ (st.handles.push handle).size
      rw [Array.size_push]
      exact Nat.le_succ _
    · exact absurd hf Git.not_refused_ok

theorem openRepository (st : Stores) (g : GitConfig) (x : Path) :
    Advances x (Git.Refused (st.openRepository g).1 [g.signature]) st (st.openRepository g).2 := by
  rw [openRepository_eq]
  refine keep ?_
  cases g.createIfMissing with
  | true => exact .openOrInitAt st.disk g.path g.signature x
  | false => exact .of_get? rfl

/-- There is nothing to sweep in a repository that was only opened. -/
theorem cleanup (hi : st.Housed i) : Advances x foundered st (st.cleanup i).2 := by
  refine ⟨Nat.le_refl _, fun _ _ => rfl, ?_⟩
  by_cases hx : x = (st.handle i).site
  -- there are no branches of transactions at either stage, so it stays as it is
  · have hkept : ∀ r, st.disk.repositories.get? x = some r → (∀ n t, r.refs.get? n = some t → n = main) →
        (st.cleanup i).2.disk.repositories.get? x = some r := fun r hr honly => by
      have hrepository : st.repository i = r := Disk.repository_of_get? (hx ▸ hr)
      unfold Stores.cleanup
      rw [hrepository, Handle.cleanup_alone honly]
      exact (Disk.get?_setRepository ..).trans (if_pos hx)
    refine ⟨fun hv => ?_, ?_, ?_⟩
    · obtain ⟨r, hr⟩ := hi.there
      rw [← hx, hv] at hr
      cases hr
    · rintro ⟨number, hb⟩
      exact .inl ⟨number, hkept _ hb fun n t hn => by cases hn⟩
    · rintro ⟨number, author, r, hs, hr⟩
      obtain ⟨-, -, -, -, honly⟩ := Repository.start_fresh hs
      exact ⟨number, author, r, hs, hkept r hr honly⟩
  · exact .of_get? ((Through.cleanup st i).elsewhere x hx)

end Advances

/-! ### The handles that are returned -/

theorem usable_of_started (h : st.disk.Started (st.handle i).site) : st.Usable i := by
  obtain ⟨number, author, r, hs, hr⟩ := h
  have hrepository : st.repository i = r := Disk.repository_of_get? hr
  have htip := Repository.tip_started hs
  obtain ⟨-, -, -, -, honly⟩ := Repository.start_fresh hs
  refine ⟨⟨_, hrepository ▸ htip, fun t => ⟨[], hrepository ▸ Repository.scanTable_started hs t⟩⟩, fun u => ?_⟩
  unfold beginBranch Handle.begin
  rw [hrepository, Repository.branch_alone htip honly u]
  exact ⟨_, rfl⟩

theorem hollow_of_blank (h : st.disk.Blank (st.handle i).site) : st.Hollow i := by
  obtain ⟨number, hr⟩ := h
  have hrepository : st.repository i = { number } := Disk.repository_of_get? hr
  refine ⟨hrepository ▸ Repository.tip_blank, fun id => ?_⟩
  unfold beginBranch Handle.begin Repository.branch
  rw [hrepository, Repository.tip_blank]
  rfl

end Stores

/-- The signatures that a repository may be made under. -/
def SourceConfig.signatures : SourceConfig → List Signature
  | .memory => []
  | .git g => [g.signature]

/-- The handle on the repository, if it is one. -/
def Source.handles : Source → List Nat
  | .memory _ => []
  | .git i => [i]

namespace Engine

/-- What is opened, and how. -/
inductive Opening where
  | openAt (path : String) (author : Signature)
  | initAt (path : String) (author : Signature)
  | openOrInitAt (path : String) (author : Signature)
  | source (config : SourceConfig)
  | database (config : EngineConfig)

def Opening.signatures : Opening → List Signature
  | .openAt _ author => [author]
  | .initAt _ author => [author]
  | .openOrInitAt _ author => [author]
  | .source config => config.signatures
  | .database config => config.sources.entries.flatMap fun entry => entry.2.signatures

def keep (e : Engine) (made : Except StorageError Handle × Disk) : Except DatabaseError (List Nat) × Engine :=
  match e.stores.keep made with
  | (.error err, stores) => (.error (.storage err), { e with stores })
  | (.ok i, stores) => (.ok [i], { e with stores })

/-- Opens, and returns the handles on the repositories that were opened. -/
def attempt (e : Engine) : Opening → Except DatabaseError (List Nat) × Engine
  | .openAt path author => e.keep (Handle.openAt e.stores.disk path author, e.stores.disk)
  | .initAt path author => e.keep (Handle.initAt e.stores.disk path author)
  | .openOrInitAt path author => e.keep (Handle.openOrInitAt e.stores.disk path author)
  | .source config =>
    match e.openSource false config with
    | (.error err, e) => (.error (.storage err), e)
    | (.ok source, e) => (.ok source.handles, e)
  | .database config =>
    match e.openDatabase config with
    | (.error err, e) => (.error err, e)
    | (.ok reg, e) => (.ok (e.gits reg), e)

/-- One opening after the other, whatever becomes of them. -/
def attempts (e : Engine) (openings : List Opening) : Engine := openings.foldl (fun e o => (e.attempt o).2) e

/-- **An opening founders on a directory**: it fails, under a signature that does not allow it to make a commit, and
leaves a repository there that it has made and not started. -/
structure Founders (e : Engine) (x : Path) (o : Opening) : Prop where
  vacant : e.stores.disk.Vacant x
  refused : Git.Refused (e.attempt o).1 o.signatures
  blank : (e.attempt o).2.stores.disk.Blank x

variable {x : Path} {e e' : Engine} {opened : List Nat} {i : Nat}

theorem keep_ok {made : Except StorageError Handle × Disk} (h : e.keep made = (.ok opened, e')) :
    ∃ handle, made.1 = .ok handle ∧ opened = [e.stores.handles.size] ∧
      e'.stores = { e.stores with disk := made.2, handles := e.stores.handles.push handle } := by
  obtain ⟨made, disk⟩ := made
  cases made with
  | error err => cases h
  | ok handle =>
    cases h
    exact ⟨handle, rfl, rfl, rfl⟩

/-! ### What becomes of a directory -/

theorem advances_keep {made : Except StorageError Handle × Disk} {signatures : List Signature}
    (h : Git.Advances x (Git.Refused made.1 signatures) e.stores.disk made.2) :
    e.stores.Advances x (Git.Refused (e.keep made).1 signatures) (e.keep made).2.stores := by
  have hkept := Stores.Advances.keep h
  unfold keep
  cases hmade : e.stores.keep made with | mk result stores =>
    rw [hmade] at hkept
    cases result with
    | error err => exact hkept.imp fun _ _ => .error
    | ok i => exact hkept.of_ok

theorem advances_openSource (e : Engine) (sweep : Bool) (config : SourceConfig) (x : Path) :
    e.stores.Advances x (Git.Refused (e.openSource sweep config).1 config.signatures)
      (e.openSource sweep config).2.stores := by
  cases config with
  | memory => exact ⟨Nat.le_refl _, fun _ _ => rfl, .of_get? rfl⟩
  | git g =>
    have hopened := Stores.Advances.openRepository e.stores g x
    unfold openSource
    simp only
    cases hopen : e.stores.openRepository g with | mk result stores =>
      rw [hopen] at hopened
      cases result with
      | error err => exact hopened.imp fun _ _ => .error
      | ok i =>
        obtain ⟨-, hunused⟩ := Stores.openRepository_unused hopen
        cases sweep with
        | false => exact hopened.of_ok
        | true => exact hopened.of_ok.andThen (.cleanup hunused.housed)

/-- The data source that founders ends the opening of the others. -/
theorem advances_openSources (sweep : Bool) (x : Path) : ∀ (configs : List (BackendName × SourceConfig)) (e : Engine),
    e.stores.Advances x (Git.Refused (openSources sweep configs e).1 (configs.flatMap fun entry => entry.2.signatures))
      (openSources sweep configs e).2.stores
  | [], e => .refl x _ e.stores
  | (name, config) :: rest, e => by
    have hfirst := advances_openSource e sweep config x
    unfold openSources
    rw [List.flatMap_cons]
    cases hopen : e.openSource sweep config with | mk result e₁ =>
      rw [hopen] at hfirst
      cases result with
      | error err => exact hfirst.imp fun _ _ hf => hf.error.mono fun s => List.mem_append_left _
      | ok source =>
        have hrest := hfirst.of_ok.andThen (advances_openSources sweep x rest (e₁.addProvider source).2)
        simp only
        cases hr : openSources sweep rest (e₁.addProvider source).2 with | mk made e₂ =>
          rw [hr] at hrest
          cases made with
          | error err => exact hrest.imp fun _ _ hf => hf.error.mono fun s => List.mem_append_right _
          | ok reg => exact hrest.of_ok

theorem advances_openDatabase (e : Engine) (config : EngineConfig) (x : Path) :
    e.stores.Advances x
      (Git.Refused (e.openDatabase config).1 (config.sources.entries.flatMap fun entry => entry.2.signatures))
      (e.openDatabase config).2.stores := by
  unfold openDatabase
  cases config.validate with
  | error err => exact .refl x _ e.stores
  | ok _ =>
    have hopened := advances_openSources config.cleanupOnOpen x config.sources.entries e
    simp only
    cases hopen : openSources config.cleanupOnOpen config.sources.entries e with | mk result e₁ =>
      rw [hopen] at hopened
      cases result with
      | error err => exact hopened.imp fun _ _ => .error
      | ok reg => exact hopened.of_ok

/-- **No opening leads back**, and a repository is made and not started only where an opening founders. -/
theorem advances_attempt (e : Engine) (o : Opening) (x : Path) :
    e.stores.Advances x (e.Founders x o) (e.attempt o).2.stores := by
  have hrefused : e.stores.Advances x (Git.Refused (e.attempt o).1 o.signatures) (e.attempt o).2.stores := by
    cases o with
    | openAt path author =>
      simp only [attempt]
      exact advances_keep (.of_get? rfl)
    | initAt path author =>
      simp only [attempt]
      exact advances_keep (.initAt e.stores.disk path author x)
    | openOrInitAt path author =>
      simp only [attempt]
      exact advances_keep (.openOrInitAt e.stores.disk path author x)
    | source config =>
      have hopened := advances_openSource e false config x
      simp only [attempt]
      cases hopen : e.openSource false config with | mk result e₁ =>
        rw [hopen] at hopened
        cases result with
        | error err => exact hopened.imp fun _ _ => .error
        | ok source => exact hopened.of_ok
    | database config =>
      have hopened := advances_openDatabase e config x
      simp only [attempt]
      cases hopen : e.openDatabase config with | mk result e₁ =>
        rw [hopen] at hopened
        cases result with
        | error err => exact hopened.imp fun _ _ => .error
        | ok reg => exact hopened.of_ok
  exact hrefused.imp fun hv hb hf => ⟨hv, hf, hb⟩

/-- One of the openings founders, after those before it. -/
def Foundered (e : Engine) (x : Path) (openings : List Opening) : Prop :=
  ∃ before o after, openings = before ++ o :: after ∧ (e.attempts before).Founders x o

/-- **No row of openings leads back**, and a repository is made and not started only where one of them founders. -/
theorem advances_attempts : ∀ (openings : List Opening) (e : Engine) (x : Path),
    e.stores.Advances x (e.Foundered x openings) (e.attempts openings).stores
  | [], e, x => .refl x _ e.stores
  | o :: openings, e, x => by
    refine ((advances_attempt e o x).trans (advances_attempts openings (e.attempt o).2 x)).imp fun _ _ hf => ?_
    obtain hf | ⟨before, o', after, rfl, hf⟩ := hf
    · exact ⟨[], o, openings, rfl, hf⟩
    · exact ⟨o :: before, o', after, rfl, hf⟩

theorem attempts_append (e : Engine) (before after : List Opening) :
    e.attempts (before ++ after) = (e.attempts before).attempts after := List.foldl_append

/-! ### What is returned -/

/-- Every handle that an opening returns is on a repository. -/
theorem housed_attempt {o : Opening} (hopen : e.attempt o = (.ok opened, e')) (hi : i ∈ opened) :
    e'.stores.Housed i := by
  have hkept : ∀ {made : Except StorageError Handle × Disk}, e.keep made = (.ok opened, e') →
      (∀ h, made.1 = .ok h → h.Leads e.stores.disk made.2) → e'.stores.Housed i := by
    intro made hmade hleads
    obtain ⟨h, hh, rfl, hstores⟩ := keep_ok hmade
    obtain rfl := List.mem_singleton.1 hi
    rw [hstores]
    exact (Stores.addHandle_unused (hleads h hh)).2.housed
  cases o with
  | openAt path author =>
    simp only [attempt] at hopen
    exact hkept hopen fun h hh => Handle.leads_openAt hh
  | initAt path author =>
    simp only [attempt] at hopen
    exact hkept hopen fun h hh => Handle.leads_initAt (Prod.ext hh rfl)
  | openOrInitAt path author =>
    simp only [attempt] at hopen
    exact hkept hopen fun h hh => Handle.leads_openOrInitAt (Prod.ext hh rfl)
  | source config =>
    simp only [attempt] at hopen
    split at hopen
    · cases hopen
    · rename_i source e₁ hsource
      cases hopen
      obtain ⟨-, -, -, hunused⟩ := openSource_opens hsource
      cases source with
      | memory n => cases hi
      | git n =>
        obtain rfl := List.mem_singleton.1 hi
        exact (hunused i rfl).housed
  | database config =>
    simp only [attempt] at hopen
    split at hopen
    · cases hopen
    · rename_i reg e₁ hdatabase
      cases hopen
      exact ((opens_of_openDatabase hdatabase).unused i hi).housed

/-- `initAt` makes no repository that it does not start. -/
theorem started_initAt {path : String} {author : Signature} (hopen : e.attempt (.initAt path author) = (.ok opened, e'))
    (hi : i ∈ opened) (hx : (e'.stores.handle i).site = x)
    (hstage : e.stores.disk.Vacant x ∨ e.stores.disk.Started x ∨ e.stores.disk.Blank x) : e'.stores.disk.Started x := by
  simp only [attempt] at hopen
  obtain ⟨h, hh, rfl, hstores⟩ := keep_ok hopen
  obtain rfl := List.mem_singleton.1 hi
  have hhandle : e'.stores.handle e.stores.handles.size = h := by
    rw [hstores]
    exact getD_push_size ..
  rw [hhandle] at hx
  subst hx
  rw [hstores]
  exact .initAt (Prod.ext hh rfl) hstage

/-- On a repository that was started a handle can be used for good. -/
theorem usable_after (hi : e.stores.Housed i) (hs : e.stores.disk.Started (e.stores.handle i).site)
    (after : List Opening) : (e.attempts after).stores.Usable i := by
  have hlater := advances_attempts after e (e.stores.handle i).site
  refine Stores.usable_of_started ?_
  rw [hlater.handle i hi.isIn]
  exact hlater.disk.started hs

section Before

variable (hnew : e.stores.disk.Vacant x) (before : List Opening)

include hnew

/-- There is no other way to a `main`. -/
theorem started_of_hasMain (h : (e.attempts before).stores.disk.HasMain x) :
    (e.attempts before).stores.disk.Started x := by
  obtain ⟨r, tip, hr, htip⟩ := h
  obtain hv | hs | ⟨⟨number, hb⟩, -⟩ := (advances_attempts before e x).disk.vacant hnew
  · rw [hv] at hr
    cases hr
  · exact hs
  · rw [hb] at hr
    cases hr
    rw [Repository.tip_blank] at htip
    cases htip

/-- A repository that was opened and is not started was there before. -/
theorem blank_before {o : Opening} (hopen : (e.attempts before).attempt o = (.ok opened, e')) (hi : i ∈ opened)
    (hx : (e'.stores.handle i).site = x) (hs : ¬ e'.stores.disk.Started x) :
    (e.attempts before).stores.disk.Blank x ∧ e.Foundered x before := by
  have hnow := advances_attempt (e.attempts before) o x
  rw [hopen] at hnow
  obtain hv | hstarted | hb := (advances_attempts before e x).disk.vacant hnew
  · obtain hv | hstarted | ⟨-, hf⟩ := hnow.disk.vacant hv
    · obtain ⟨r, hr⟩ := (housed_attempt hopen hi).there
      rw [hx, hv] at hr
      cases hr
    · exact absurd hstarted hs
    · have hrefused := hf.refused
      rw [hopen] at hrefused
      exact absurd hrefused Git.not_refused_ok
  · exact absurd (hnow.disk.started hstarted) hs
  · exact hb

end Before

/-- **An opened repository can be used**, from then on and whatever is opened later; unless an earlier opening
foundered on its directory, nothing has started a repository there since, and this opening does not make one.  Then
the handle is good for nothing. -/
theorem opened_repository_is_usable (hnew : e.stores.disk.Vacant x) (before : List Opening) {o : Opening}
    (hopen : (e.attempts before).attempt o = (.ok opened, e')) (hi : i ∈ opened)
    (hx : (e'.stores.handle i).site = x) :
    (∀ after, (e'.attempts after).stores.Usable i) ∨
      e'.stores.Hollow i ∧ e.Foundered x before ∧ (∀ path author, o ≠ .initAt path author) ∧
        ∀ earlier later, before = earlier ++ later → ¬ (e.attempts earlier).stores.disk.HasMain x := by
  by_cases hs : e'.stores.disk.Started x
  · exact .inl (usable_after (housed_attempt hopen hi) (hx.symm ▸ hs))
  -- no opening leads back, so there was no `main` at any time before
  have hnow := advances_attempt (e.attempts before) o x
  rw [hopen] at hnow
  obtain ⟨hblank, hfoundered⟩ := blank_before hnew before hopen hi hx hs
  have hstays := (hnow.disk.blank hblank).resolve_right hs
  refine .inr ⟨Stores.hollow_of_blank (hx ▸ hstays), hfoundered, ?_, ?_⟩
  · rintro path author rfl
    exact hs (started_initAt hopen hi hx (.inr (.inr hblank)))
  · rintro earlier later rfl hmain
    have hlater := (advances_attempts later (e.attempts earlier) x).disk
    rw [← attempts_append] at hlater
    exact hs (hnow.disk.started (hlater.started (started_of_hasMain hnew earlier hmain)))

/-! ### A directory on which an opening founders -/

/-- A repository was made in one directory, and not started. -/
def unstarted : Engine := { stores := { disk := Disk.setRepository {} ["data"] {} } }

theorem attempt_unsigned :
    ({} : Engine).attempt (.openOrInitAt "data" ⟨"", ""⟩) = (.error (.storage .git), unstarted) := by
  have hfolder : Disk.isFolder {} (Git.siteOf "data" ++ [Git.dotGit]) = false := by decide
  have hout : Disk.outOfDotGit ["data"] = ["data"] := by decide
  have hstart : ({} : Repository).start ⟨"", ""⟩ = .error .git := by
    have hstamp : Signature.stamp? ⟨"", ""⟩ = none := by decide
    unfold Repository.start Repository.stamp
    rw [hstamp]
    rfl
  have hinit : Handle.openOrInitAt {} "data" ⟨"", ""⟩ = (.error .git, Disk.setRepository {} ["data"] {}) := by
    have hfresh : Disk.repository {} ["data"] = {} := rfl
    unfold Handle.openOrInitAt Handle.initAt
    rw [hfolder, Stores.siteOf_data]
    simp only [hout, Stores.siteOk_data, hfresh, hstart]
    rfl
  show keep {} (Handle.openOrInitAt {} "data" ⟨"", ""⟩) = _
  rw [hinit]
  rfl

/-- It is opened later as if it had been started. -/
theorem attempt_unstarted (author : Signature) : ∃ e', unstarted.attempt (.openOrInitAt "data" author) = (.ok [0], e') ∧
    e'.stores.disk = unstarted.stores.disk ∧ (e'.stores.handle 0).site = ["data"] := by
  have hopen : Handle.openOrInitAt unstarted.stores.disk "data" author =
      (.ok ⟨"data", ["data"], author, ∅⟩, unstarted.stores.disk) := by
    have hfolder : Disk.isFolder unstarted.stores.disk (Git.siteOf "data" ++ [Git.dotGit]) = true := by decide +kernel
    have hfind : Disk.find? unstarted.stores.disk ["data"] = some ["data"] := by decide +kernel
    unfold Handle.openOrInitAt Handle.openAt
    rw [hfolder, Stores.siteOf_data]
    simp only [hfind]
    rfl
  refine ⟨{ stores := { unstarted.stores with handles := #[⟨"data", ["data"], author, ∅⟩] } }, ?_, rfl, rfl⟩
  show keep unstarted (Handle.openOrInitAt unstarted.stores.disk "data" author) = _
  rw [hopen]
  rfl

/-- An opening under an empty signature founders, the next one succeeds, and what it returns has no `main`. -/
theorem unsigned_directory_is_hollow :
    (({} : Engine).attempt (.openOrInitAt "data" ⟨"", ""⟩)).1 = .error (.storage .git) ∧
      ∃ e', (({} : Engine).attempts [.openOrInitAt "data" ⟨"", ""⟩]).attempt (.openOrInitAt "data" .default) =
        (.ok [0], e') ∧ (e'.stores.handle 0).site = ["data"] ∧ e'.stores.Hollow 0 ∧ ¬ e'.stores.Usable 0 := by
  obtain ⟨e', hopen, hdisk, hsite⟩ := attempt_unstarted .default
  have hblank : e'.stores.disk.Blank (e'.stores.handle 0).site := by
    rw [hsite, hdisk]
    exact ⟨0, rfl⟩
  have hhollow := Stores.hollow_of_blank hblank
  refine ⟨congrArg Prod.fst attempt_unsigned, e', ?_, hsite, hhollow, hhollow.not_usable⟩
  show (({} : Engine).attempt (.openOrInitAt "data" ⟨"", ""⟩)).2.attempt _ = _
  rw [attempt_unsigned]
  exact hopen

/-- Making it once more, under a signature that allows that, mends it. -/
theorem directory_made_again_is_usable :
    ∃ e', (({} : Engine).attempts [.openOrInitAt "data" ⟨"", ""⟩]).attempt (.initAt "data" .default) = (.ok [0], e') ∧
      ∀ after, (e'.attempts after).stores.Usable 0 := by
  obtain ⟨r, hr⟩ := Repository.start_usable 0 Signature.usable_default
  have hinit : Handle.initAt unstarted.stores.disk "data" .default =
      (.ok ⟨"data", ["data"], .default, ∅⟩, unstarted.stores.disk.setRepository ["data"] r) := by
    have hout : Disk.outOfDotGit ["data"] = ["data"] := by decide
    have hblank : Disk.repository unstarted.stores.disk ["data"] = {} := rfl
    unfold Handle.initAt
    simp only [Stores.siteOf_data, hout, Stores.siteOk_data, hblank, hr]
    rfl
  have hopen : ∃ e', (({} : Engine).attempts [.openOrInitAt "data" ⟨"", ""⟩]).attempt (.initAt "data" .default) =
      (.ok [0], e') ∧ (e'.stores.handle 0).site = ["data"] := by
    refine ⟨{ stores := { disk := unstarted.stores.disk.setRepository ["data"] r
                          handles := #[⟨"data", ["data"], .default, ∅⟩] } }, ?_, rfl⟩
    show (({} : Engine).attempt (.openOrInitAt "data" ⟨"", ""⟩)).2.attempt _ = _
    rw [attempt_unsigned]
    show keep unstarted (Handle.initAt unstarted.stores.disk "data" .default) = _
    rw [hinit]
    rfl
  obtain ⟨e', hopen, hsite⟩ := hopen
  refine ⟨e', hopen, ?_⟩
  obtain husable | ⟨-, -, hne, -⟩ := opened_repository_is_usable (e := {}) rfl [.openOrInitAt "data" ⟨"", ""⟩] hopen
    (List.mem_singleton_self 0) hsite
  · exact husable
  · exact absurd rfl (hne _ _)

end Engine
end Demarcate
