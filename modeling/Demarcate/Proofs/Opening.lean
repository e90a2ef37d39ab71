import Demarcate.Proofs.Trimming
/-!
# Opening — the data sources of a database

When a database is opened, each of its repositories is found or made, and gets a handle of its own, which knows no
transaction yet (`openSources_opens`).  What was opened before stays where it is, on the same repositories.
-/
namespace Demarcate

theorem getD_push_of_lt {α : Type} (xs : Array α) (a d : α) {i : Nat} (hi : i < xs.size) :
    (xs.push a).getD i d = xs.getD i d := by
  simp [Array.getD_eq_getD_getElem?, Array.getElem?_push, Nat.ne_of_lt hi]

theorem getD_push_size {α : Type} (xs : Array α) (a d : α) : (xs.push a).getD xs.size d = a := by simp

namespace Stores

/-- Handles may have been opened, and repositories made. -/
structure Widens (st st' : Stores) : Prop where
  size : st.handles.size ≤ st'.handles.size
  handle : ∀ i, i < st.handles.size → st'.handle i = st.handle i
  there : ∀ x r, st.disk.repositories.get? x = some r → ∃ r', st'.disk.repositories.get? x = some r'

/-- Nothing was done through the handle yet. -/
structure Unused (st : Stores) (i : Nat) : Prop where
  housed : st.Housed i
  live : (st.handle i).live = ∅

namespace Widens

variable {st st₁ st₂ : Stores}

theorem refl (st : Stores) : Widens st st := ⟨Nat.le_refl _, fun _ _ => rfl, fun _ r hr => ⟨r, hr⟩⟩

theorem trans (h₁ : Widens st st₁) (h₂ : Widens st₁ st₂) : Widens st st₂ := by
  refine ⟨Nat.le_trans h₁.size h₂.size, fun i hi => ?_, fun x r hr => ?_⟩
  · exact (h₂.handle i (Nat.lt_of_lt_of_le hi h₁.size)).trans (h₁.handle i hi)
  · obtain ⟨r₁, hr₁⟩ := h₁.there x r hr
    exact h₂.there x r₁ hr₁

theorem cleanup (st : Stores) (j : Nat) : Widens st (st.cleanup j).2 :=
  ⟨Nat.le_refl _, fun _ _ => rfl, (Through.cleanup st j).there⟩

theorem addHandle {disk : Git.Disk} (hdisk : ∀ x r, st.disk.repositories.get? x = some r →
    ∃ r', disk.repositories.get? x = some r') (h : Git.Handle) : Widens st (({ st with disk }).addHandle h).2 := by
  refine ⟨?_, fun i hi => getD_push_of_lt _ _ _ hi, hdisk⟩
  show st.handles.size ≤ (st.handles.push h).size
  rw [Array.size_push]
  exact Nat.le_succ _

theorem unused (h : Widens st st₁) {i : Nat} (hi : st.Unused i) : st₁.Unused i := by
  have hhandle := h.handle i hi.housed.isIn
  obtain ⟨r, hr⟩ := hi.housed.there
  refine ⟨⟨Nat.lt_of_lt_of_le hi.housed.isIn h.size, ?_⟩, by rw [hhandle, hi.live]⟩
  rw [hhandle]
  exact h.there _ r hr

end Widens

end Stores

namespace Git

/-- A repository that was found is there. -/
theorem Disk.there_of_find? {d : Disk} {x site : Path} (h : d.find? x = some site) :
    ∃ r, d.repositories.get? site = some r := by
  unfold find? at h
  split at h
  · cases h
    exact Option.isSome_iff_exists.1 ‹_›
  · split at h
    · cases h
      exact Option.isSome_iff_exists.1 ‹_›
    · cases h

/-- What opening a repository comes to, if it is opened: the handle is on a repository, and knows no transactions. -/
structure Handle.Leads (d : Disk) (h : Handle) (d' : Disk) : Prop where
  kept : ∀ x r, d.repositories.get? x = some r → ∃ r', d'.repositories.get? x = some r'
  there : ∃ r, d'.repositories.get? h.site = some r
  live : h.live = ∅

theorem Handle.leads_openAt {d : Disk} {path : String} {author : Signature} {h : Handle}
    (hopen : openAt d path author = .ok h) : h.Leads d d := by
  unfold openAt at hopen
  split at hopen
  · cases hopen
    exact ⟨fun _ r hr => ⟨r, hr⟩, Disk.there_of_find? ‹_›, rfl⟩
  · cases hopen

theorem Handle.leads_initAt {d d' : Disk} {path : String} {author : Signature} {h : Handle}
    (hinit : initAt d path author = (.ok h, d')) : h.Leads d d' := by
  unfold initAt at hinit
  simp only at hinit
  split at hinit
  · cases hinit
  · split at hinit
    · cases hinit
      refine ⟨fun x r hr => ?_, ⟨_, (SortedMap.get?_insert ..).trans (if_pos rfl)⟩, rfl⟩
      show ∃ r', (d.repositories.insert _ _).get? x = some r'
      rw [SortedMap.get?_insert]
      split
      · exact ⟨_, rfl⟩
      · exact ⟨r, hr⟩
    · cases hinit

theorem Handle.leads_openOrInitAt {d d' : Disk} {path : String} {author : Signature} {h : Handle}
    (hopen : openOrInitAt d path author = (.ok h, d')) : h.Leads d d' := by
  unfold openOrInitAt at hopen
  split at hopen
  · obtain ⟨hfound, rfl⟩ := Prod.mk.inj hopen
    exact leads_openAt hfound
  · exact leads_initAt hopen

end Git

/-- **A handle that was opened is added**, and nothing was done through it yet. -/
theorem Stores.addHandle_unused {st : Stores} {d : Git.Disk} {h : Git.Handle} (hleads : h.Leads st.disk d) :
    st.Widens (({ st with disk := d } : Stores).addHandle h).2 ∧
      (({ st with disk := d } : Stores).addHandle h).2.Unused st.handles.size := by
  have hhandle : (({ st with disk := d } : Stores).addHandle h).2.handle st.handles.size = h := getD_push_size ..
  refine ⟨Widens.addHandle hleads.kept h, ⟨?_, ?_⟩, ?_⟩
  · show st.handles.size < (st.handles.push h).size
    rw [Array.size_push]
    exact Nat.lt_succ_self _
  · rw [hhandle]
    exact hleads.there
  · rw [hhandle]
    exact hleads.live

theorem Stores.openRepository_unused {st st' : Stores} {g : GitConfig} {i : Nat}
    (hopen : st.openRepository g = (.ok i, st')) : st.Widens st' ∧ st'.Unused i := by
  unfold openRepository at hopen
  simp only at hopen
  generalize hmade : (if g.createIfMissing then Git.Handle.openOrInitAt st.disk g.path g.signature
    else (Git.Handle.openAt st.disk g.path g.signature, st.disk)) = made at hopen
  obtain ⟨opened, d⟩ := made
  cases opened with
  | error e => cases hopen
  | ok h =>
    cases hopen
    refine addHandle_unused (h := h) ?_
    split at hmade
    · exact Git.Handle.leads_openOrInitAt hmade
    · obtain ⟨hfound, rfl⟩ := Prod.mk.inj hmade
      exact Git.Handle.leads_openAt hfound

namespace Engine

/-- The handles on the repositories of a database, in order of its data sources' names. -/
def gits (e : Engine) (reg : Registry) : List Nat := reg.values.filterMap e.handle?

variable {e e' : Engine} {reg : Registry}

theorem mem_gits {i : Nat} : i ∈ e.gits reg ↔ ∃ b p, reg.get? b = some p ∧ (e.provider p).source = .git i := by
  have hhandle : ∀ p, e.handle? p = some i ↔ (e.provider p).source = .git i := fun p => by
    unfold handle?
    split
    · rename_i j hj
      rw [hj, Option.some.injEq, Source.git.injEq]
    · rename_i j hj
      rw [hj]
      exact ⟨fun h => (by cases h), fun h => (by cases h)⟩
  unfold gits
  rw [List.mem_filterMap]
  constructor
  · rintro ⟨p, hp, hi⟩
    obtain ⟨⟨b, p'⟩, hentry, rfl⟩ := List.mem_map.1 hp
    exact ⟨b, p', SortedMap.get?_eq_some_iff.2 hentry, (hhandle p').1 hi⟩
  · rintro ⟨b, p, hp, hi⟩
    exact ⟨p, List.mem_map.2 ⟨(b, p), SortedMap.get?_eq_some_iff.1 hp, rfl⟩, (hhandle p).2 hi⟩

theorem gits_congr (h : ∀ p, (e'.provider p).source = (e.provider p).source) : e'.gits reg = e.gits reg := by
  have hhandle : e'.handle? = e.handle? := funext fun p => by
    unfold handle?
    rw [h]
  unfold gits
  rw [hhandle]

/-- No two data sources of a database are on one repository. -/
def Apart (e : Engine) (reg : Registry) : Prop :=
  ∀ b b' p p' i j, reg.get? b = some p → reg.get? b' = some p' → (e.provider p).source = .git i →
    (e.provider p').source = .git j → (e.stores.handle i).site = (e.stores.handle j).site → b = b'

theorem Apart.stores (h : e.Apart reg) : e.stores.Apart (e.gits reg) := by
  intro i hi j hj hsite
  obtain ⟨b, p, hp, hi⟩ := mem_gits.1 hi
  obtain ⟨b', p', hp', hj⟩ := mem_gits.1 hj
  obtain rfl := h b b' p p' i j hp hp' hi hj hsite
  obtain rfl := Option.some.inj (hp.symm.trans hp')
  exact Source.git.inj (hi.symm.trans hj)

/-- What opening data sources comes to, if all are opened. -/
structure Opens (e : Engine) (reg : Registry) (e' : Engine) : Prop where
  reachable : e.stores.Reachable → e'.stores.Reachable
  widens : e.stores.Widens e'.stores
  size : e.providers.size ≤ e'.providers.size
  providers : ∀ p, p < e.providers.size → e'.provider p = e.provider p
  unused : ∀ i ∈ e'.gits reg, e'.stores.Unused i

theorem openSource_opens {e e₁ : Engine} {sweep : Bool} {config : SourceConfig} {source : Source}
    (hopen : e.openSource sweep config = (.ok source, e₁)) : (e.stores.Reachable → e₁.stores.Reachable) ∧
      e.stores.Widens e₁.stores ∧ e₁.providers = e.providers ∧ ∀ i, source = .git i → e₁.stores.Unused i := by
  cases config with
  | memory =>
    cases hopen
    exact ⟨.addMemory, ⟨Nat.le_refl _, fun _ _ => rfl, fun _ r hr => ⟨r, hr⟩⟩, rfl, fun i hi => by cases hi⟩
  | git g =>
    unfold openSource at hopen
    simp only at hopen
    cases ho : e.stores.openRepository g with | mk opened st =>
      rw [ho] at hopen
      cases opened with
      | error err => cases hopen
      | ok i =>
        cases hopen
        obtain ⟨hwidens, hunused⟩ := Stores.openRepository_unused ho
        have hreachable : e.stores.Reachable → st.Reachable := fun h => by
          have hst := h.openRepository g
          rwa [ho] at hst
        cases sweep with
        | false => exact ⟨hreachable, hwidens, rfl, fun j hj => by cases hj; exact hunused⟩
        | true =>
          have hswept := Stores.Widens.cleanup st i
          exact ⟨fun h => (hreachable h).cleanup i, hwidens.trans hswept, rfl, fun j hj => by
            cases hj
            exact hswept.unused hunused⟩

/-- **Every repository of a database is opened anew**, under a handle of its own. -/
theorem openSources_opens (sweep : Bool) : ∀ {configs : List (BackendName × SourceConfig)} {e e' : Engine}
    {reg : Registry}, openSources sweep configs e = (.ok reg, e') → Opens e reg e'
  | [], e, e', reg, hopen => by
    cases hopen
    exact ⟨id, .refl _, Nat.le_refl _, fun _ _ => rfl, fun i hi => by cases hi⟩
  | (name, config) :: rest, e, e', reg, hopen => by
    unfold openSources at hopen
    cases ho : e.openSource sweep config with | mk opened e₁ =>
      rw [ho] at hopen
      cases opened with
      | error err => cases hopen
      | ok source =>
        simp only at hopen
        cases hr : openSources sweep rest (e₁.addProvider source).2 with | mk made e₂ =>
          rw [hr] at hopen
          cases made with
          | error err => cases hopen
          | ok reg₂ =>
            cases hopen
            obtain ⟨hreachable, hwidens, hproviders, hunused⟩ := openSource_opens ho
            have hrest := openSources_opens sweep hr
            have hsize : e.providers.size < (e₁.addProvider source).2.providers.size := by
              show _ < (e₁.providers.push _).size
              rw [Array.size_push, hproviders]
              exact Nat.lt_succ_self _
            refine ⟨fun h => hrest.reachable (hreachable h), hwidens.trans hrest.widens,
              Nat.le_trans (Nat.le_of_lt hsize) hrest.size, fun p hp => ?_, fun i hi => ?_⟩
            · have hold : (e₁.addProvider source).2.provider p = e₁.provider p :=
                getD_push_of_lt _ _ _ (hproviders ▸ hp)
              rw [hrest.providers p (Nat.lt_trans hp hsize), hold]
              exact provider_congr hproviders p
            · obtain ⟨b, p, hp, hi⟩ := mem_gits.1 hi
              rw [SortedMap.get?_insert] at hp
              split at hp
              · obtain rfl := Option.some.inj hp
                have hadded : e'.provider e₁.providers.size = { source } :=
                  (hrest.providers _ (hproviders ▸ hsize)).trans (getD_push_size ..)
                have hi : (e'.provider e₁.providers.size).source = .git i := hi
                rw [hadded] at hi
                exact hrest.widens.unused (hunused i hi)
              · exact hrest.unused i (mem_gits.2 ⟨b, p, hp, hi⟩)

theorem opens_of_openDatabase {e₀ e : Engine} {config : EngineConfig} {reg : Registry}
    (hopen : e₀.openDatabase config = (.ok reg, e)) : Opens e₀ reg e := by
  unfold openDatabase at hopen
  split at hopen
  · cases hopen
  · split at hopen
    · cases hopen
    · cases hopen
      exact openSources_opens _ ‹_›

/-- A repository is opened without a sweep. -/
theorem openSources_git {e₁ : Engine} {name : BackendName} {g : GitConfig} {rest : List (BackendName × SourceConfig)}
    {i : Nat} {st : Stores} (hopen : e.stores.openRepository g = (.ok i, st))
    (hrest : openSources false rest (({ e with stores := st } : Engine).addProvider (.git i)).2 = (.ok reg, e₁)) :
    openSources false ((name, .git g) :: rest) e = (.ok (reg.insert name e.providers.size), e₁) := by
  unfold openSources openSource
  simp only [hopen, Bool.false_eq_true, if_false, hrest]
  rfl

end Engine
end Demarcate
