import Frust.Kernel.Metadata

/-!
# `Frust.Proofs.Kernel.Metadata`: what the metadata caches serve

Readers and writers of any tenants run side by side. A reader that is served a value was given
it since the generation that it sampled began (`safe_thread`), whether it found the value in a
cache or loaded it. From this come the parts of `caches_coherent`: who samples after the bump
of a write is served what is at least as new as the write, and a bump is nothing to the readers
of other tenants.

A write is committed before it is bumped. In between, an entry of the current generation may be
older than what a load gives (`not_served_as_uncached`).
-/

set_option autoImplicit false

namespace Frust.Kernel

open Frust.Lib Frust.Lib.GenCache

namespace Metadata

variable {Rules ι : Type}

/-- The tables give the value. -/
def Loads (tables : MetaTables Rules) (k : MetaKey) (v : k.Val Rules) : Prop := tables.load k = .ok v

/-- What a reader learns. -/
def learn (seen : Seen String MetaKey (MetaKey.Val Rules)) :
    (q : MetaRequest Rules) → MetaAnswer q → Seen String MetaKey (MetaKey.Val Rules)
  | .generation t, g => seen.sample t g
  | .lookup k, entry => seen.find k entry
  | .uncached k, v => seen.keep MetaKey.tenant k (v = .ok ·)
  | _, _ => seen

/-- The process, and what its threads learn. -/
def env : Env (MetaRequest Rules) MetaAnswer (MetaState Rules)
    (Seen String MetaKey (MetaKey.Val Rules)) where
  answers := MetaState.Answers
  learn _ seen q r := learn seen q r

/-- The threads of a process. -/
abbrev Process (Rules ι : Type) :=
  Pool BrokerError (MetaRequest Rules) MetaAnswer (Option (Σ k : MetaKey, k.Val Rules))
    (MetaState Rules) (Seen String MetaKey (MetaKey.Val Rules)) ι

/-- A process at its start. -/
def start (tables : String → MetaTables Rules) (threads : ι → MetaThread Rules) :
    Process Rules ι where
  shared := .start tables
  prog i := (threads i).prog
  known _ := .nothing

/-- Only what was given is kept. -/
def Keeps (seen : Seen String MetaKey (MetaKey.Val Rules)) : MetaRequest Rules → Prop
  | .insert k g v => seen.got ⟨k, g, v⟩
  | _ => True

/-- Who is served a value was given it since the generation it sampled began. -/
def Served (seen : Seen String MetaKey (MetaKey.Val Rules))
    (r : Except BrokerError (Option (Σ k : MetaKey, k.Val Rules))) : Prop :=
  ∀ k v, r = .ok (some ⟨k, v⟩) →
    ∃ g, seen.sampled k.tenant = some g ∧ seen.got ⟨k, g, v⟩

/-! ### One thread -/

section

variable {seen : Seen String MetaKey (MetaKey.Val Rules)} {k : MetaKey}

/-- `Served`, for a read by itself. -/
def ServedOf (k : MetaKey) (seen : Seen String MetaKey (MetaKey.Val Rules))
    (r : Except BrokerError (k.Val Rules)) : Prop :=
  ∀ v, r = .ok v → ∃ g, seen.sampled k.tenant = some g ∧ seen.got ⟨k, g, v⟩

theorem safe_loadAndKeep {gen : Nat} (hsampled : seen.sampled k.tenant = some gen) :
    Pool.Safe env (fun _ _ _ => True) Keeps (ServedOf k) seen
      (loadAndKeep k gen : MetaProg Rules (k.Val Rules)) := by
  unfold loadAndKeep
  refine ⟨trivial, fun s loaded s' _ _ => ?_⟩
  cases (loaded : Except BrokerError (k.Val Rules)) with
  | error e =>
      intro v hv
      cases hv
  | ok v =>
      have hgot : (learn seen (.uncached k) (Except.ok v)).got ⟨k, gen, v⟩ :=
        Or.inr ⟨gen, v, hsampled, rfl, rfl⟩
      refine ⟨hgot, fun _ _ _ _ _ => ?_⟩
      intro v' hv'
      cases hv'
      exact ⟨gen, hsampled, hgot⟩

theorem safe_cachedRead : Pool.Safe env (fun _ _ _ => True) Keeps (ServedOf k) seen
    (cachedRead k : MetaProg Rules (k.Val Rules)) := by
  unfold cachedRead
  refine ⟨trivial, fun s (gen : Nat) s' _ _ => ⟨trivial, fun s entry s' _ _ => ?_⟩⟩
  have hsampled : (learn (learn seen (.generation k.tenant) gen) (.lookup k) entry).sampled
      k.tenant = some gen := Function.update_self ..
  match entry with
  | none => exact safe_loadAndKeep hsampled
  | some (g, v) =>
      dsimp only
      split
      · -- an entry of the generation that was sampled
        rename_i hg
        subst hg
        intro v' hv'
        cases hv'
        exact ⟨g, hsampled, Or.inr ⟨(g, v), rfl, rfl⟩⟩
      · exact safe_loadAndKeep hsampled

theorem safe_writeMeta (tenant : String) (edits : List (MetaTables Rules → MetaTables Rules)) :
    ∀ seen, Pool.Safe env (fun _ _ _ => True) Keeps (fun _ _ => True) seen
      (writeMeta tenant edits) := by
  induction edits with
  | nil => exact fun seen => ⟨trivial, fun _ _ _ _ _ => trivial⟩
  | cons edit rest ih =>
      intro seen
      unfold writeMeta
      refine ⟨trivial, fun s r s' _ _ => ?_⟩
      cases (r : Except BrokerError Unit) with
      | error e => trivial
      | ok _ => exact ih _

theorem safe_thread (thread : MetaThread Rules) :
    Pool.Safe env (fun _ _ _ => True) Keeps Served seen thread.prog := by
  cases thread with
  | read k =>
      unfold MetaThread.prog
      refine Pool.Safe.bind (safe_cachedRead (k := k)) (fun seen v hv => ?_) fun seen e _ => ?_
      · intro k' v' h
        cases h
        exact hv v rfl
      · intro k' v' h
        cases h
  | write tenant edits =>
      unfold MetaThread.prog
      refine Pool.Safe.bind (safe_writeMeta tenant edits seen) (fun seen _ _ => ?_)
        fun seen e _ => ?_
      · intro k' v' h
        cases h
      · intro k' v' h
        cases h

end

/-! ### A read by itself -/

theorem run_loadAndKeep (s : MetaState Rules) (k : MetaKey) (g : Nat) :
    ((loadAndKeep k g : MetaProg Rules (k.Val Rules)).run MetaState.answer s).1
      = (s.current k.tenant).load k := by
  unfold loadAndKeep
  simp only [Prog.run_ask, MetaState.answer]
  cases (s.current k.tenant).load k <;> rfl

/-- A read is served the entry of the current generation, or else what a load gives. -/
theorem served_eq (s : MetaState Rules) (k : MetaKey) :
    s.served k = match s.cache k with
      | some (g, v) => if g = s.gen k.tenant then .ok v else (s.current k.tenant).load k
      | none => (s.current k.tenant).load k := by
  unfold MetaState.served cachedRead
  show (Prog.run MetaState.answer (match s.cache k with
    | some (g, v) => if g = s.gen k.tenant then .done (.ok v) else loadAndKeep k (s.gen k.tenant)
    | none => loadAndKeep k (s.gen k.tenant)) s).1 = _
  cases s.cache k with
  | none => exact run_loadAndKeep s k _
  | some e =>
      dsimp only
      split
      · rfl
      · exact run_loadAndKeep s k _

/-! ### All threads -/

/-- What every step keeps. -/
abbrev MetaSound (p : Process Rules ι) : Prop :=
  Sound MetaKey.tenant Loads env (fun _ => Keeps) (fun _ => Served) p

theorem sound_start (tables : String → MetaTables Rules) (threads : ι → MetaThread Rules) :
    MetaSound (start tables threads) where
  good :=
    { began_le := fun t g _ => Nat.zero_le _
      cached := fun k g v h => by cases h }
  knows i := knows_nothing _
  safe i := safe_thread (threads i)

theorem protocol : Protocol MetaKey.tenant Loads (@env Rules) (fun _ : ι => Keeps) where
  keeps {s s' q r seen i} h hkeeps hgood hknows := by
    cases q with
    | generation t =>
        obtain ⟨rfl, rfl⟩ := h
        exact ⟨.refl s', hgood, hknows.sample t⟩
    | lookup k =>
        obtain ⟨rfl, rfl⟩ := h
        exact ⟨.refl s', hgood, hknows.find hgood k⟩
    | uncached k =>
        obtain ⟨rfl, hv⟩ := h
        refine ⟨.refl s', hgood, hknows.keep hgood k fun a ha => ?_⟩
        rcases hv with ⟨e, he⟩ | hv
        · exact absurd (ha.symm.trans he) (by simp)
        · exact hv.symm.trans ha
    | insert k g v =>
        cases h
        -- What is inserted was loaded after the sample that it is inserted under.
        exact ⟨later_insert s k g v, hgood.insert (hknows.got k g v hkeeps),
          hknows.mono (later_insert s k g v)⟩
    | commit t edit =>
        -- A commit makes a new version, or fails and changes nothing.
        rcases h with rfl | ⟨rfl, _⟩
        · exact ⟨later_commit s t edit, hgood.commit t edit, hknows.mono (later_commit s t edit)⟩
        · exact ⟨.refl s', hgood, hknows⟩
    | bump t =>
        cases h
        exact ⟨later_bump s t, hgood.bump t, hknows.mono (later_bump s t)⟩
  samples {s s' q r seen t g} h hg := by
    cases q with
    | generation t' =>
        obtain ⟨rfl, rfl⟩ := h
        by_cases ht : t = t'
        · subst ht
          exact Or.inr (Option.some.inj (by simpa [env, learn, Seen.sample] using hg)).symm
        · exact Or.inl (by simpa [env, learn, Seen.sample, ht] using hg)
    | lookup _ => exact Or.inl hg
    | uncached _ => exact Or.inl hg
    | insert _ _ _ => exact Or.inl hg
    | commit _ _ => exact Or.inl hg
    | bump _ => exact Or.inl hg

theorem served_error (_ : ι) (seen : Seen String MetaKey (MetaKey.Val Rules)) (e : BrokerError) :
    Served seen (.error e) := fun _ _ h => by cases h

section

variable [DecidableEq ι]

/-- A value that was loaded at the version or a later one. -/
def LoadedFrom (s : MetaState Rules) (k : MetaKey) (version : Nat) (v : k.Val Rules) : Prop :=
  ∃ n, version ≤ n ∧ n ≤ s.version k.tenant ∧ (s.content k.tenant n).load k = .ok v

/-- In a run to `p`, a write of the tenant was committed (`c` is right after it), later the
tenant's generation was bumped, and after that the thread sampled it. -/
def StartsAfter (tables : String → MetaTables Rules) (threads : ι → MetaThread Rules) (t : String)
    (c : Process Rules ι) (i : ι) (p : Process Rules ι) : Prop :=
  ∃ es a writer edit done, Run (Pool.Moves env) (start tables threads) es a ∧
    Pool.Step env a ⟨writer, .commit t edit, done⟩ c ∧ c.shared = a.shared.commit t edit ∧
    BumpedThenSampled env (fun _ _ _ => True) i t c p

theorem served_after {tables : String → MetaTables Rules} {threads : ι → MetaThread Rules}
    {es : List (Pool.Event (MetaRequest Rules) MetaAnswer ι)} {c p : Process Rules ι} {i : ι}
    {k : MetaKey} {v : k.Val Rules} (hp : Run (Pool.Moves env) (start tables threads) es p)
    (hafter : StartsAfter tables threads k.tenant c i p)
    (hserved : p.prog i = .done (.ok (some ⟨k, v⟩))) :
    LoadedFrom p.shared k (c.shared.version k.tenant) v := by
  obtain ⟨es₁, a, writer, edit, done, hrun, hcommit, _, hbumped⟩ := hafter
  have ha := ((sound_start tables threads).run protocol served_error hrun).2
  have hc := (ha.turn protocol hcommit).2
  have hpost := ((sound_start tables threads).run protocol served_error hp).2.safe i
  rw [hserved] at hpost
  obtain ⟨g, hg, hgot⟩ := hpost k v rfl
  exact hc.fresh protocol served_error hbumped hg hgot

/-- A bump does not change what a reader of another tenant is served. -/
theorem served_bump (s : MetaState Rules) {t : String} {k : MetaKey} (hk : k.tenant ≠ t) :
    MetaState.served (s.bump t) k = s.served k := by
  obtain ⟨hgen, hcurrent, hcache⟩ := bump_of_ne s hk
  rw [served_eq, served_eq, hgen, hcurrent, hcache]

/-- In every run of readers and writers of any tenants, for each of the three caches: a reader
that starts after the bump of a write is served what was loaded from that write's version or a
later one; what a cache answers was loaded since the generation that the reader sampled began,
and where nothing was committed since then it is what a load gives now; and a bump does not
change what readers of other tenants are served. -/
theorem caches_coherent {tables : String → MetaTables Rules} {threads : ι → MetaThread Rules}
    {es : List (Pool.Event (MetaRequest Rules) MetaAnswer ι)} {p : Process Rules ι}
    (h : Run (Pool.Moves env) (start tables threads) es p) :
    (∀ c i k v, StartsAfter tables threads k.tenant c i p →
      p.prog i = .done (.ok (some ⟨k, v⟩)) →
      LoadedFrom p.shared k (c.shared.version k.tenant) v) ∧
    (∀ i k entry v p', Pool.Step env p ⟨i, .lookup k, entry⟩ p' →
      p'.prog i = .done (.ok (some ⟨k, v⟩)) →
      ∃ g, (p.known i).sampled k.tenant = some g ∧
        LoadedFrom p.shared k (p.shared.began k.tenant g) v ∧
        (p.shared.version k.tenant = p.shared.began k.tenant g →
          (p.shared.current k.tenant).load k = .ok v)) ∧
    ∀ i t p', Pool.Step env p ⟨i, .bump t, ()⟩ p' → ∀ k : MetaKey, k.tenant ≠ t →
      MetaState.served p'.shared k = p.shared.served k := by
  refine ⟨fun c i k v hafter hserved => served_after h hafter hserved, ?_, ?_⟩
  · intro i k entry v p' hstep hserved
    -- The entry was loaded at a version since the sampled generation began.
    have hp := ((sound_start tables threads).run protocol served_error h).2
    have hp' := (hp.turn protocol hstep).2
    have hshared : p'.shared = p.shared := hstep.answers.2
    have hpost := hp'.safe i
    rw [hserved] at hpost
    obtain ⟨g, hg, hgot⟩ := hpost k v rfl
    obtain ⟨n, hbegan, hn, hload⟩ := ((hp'.knows i).got k g v hgot).loaded
    rw [hshared] at hbegan hn hload
    refine ⟨g, ?_, ⟨n, hbegan, hn, hload⟩, fun hsettled => ?_⟩
    · rw [hstep.known_self] at hg
      exact hg
    · -- Nothing was written since, so that version is the current one.
      have heq : n = p.shared.version k.tenant := by omega
      rw [heq] at hload
      exact hload
  · intro i t p' hstep k hk
    have hshared : p'.shared = p.shared.bump t := hstep.answers
    rw [hshared]
    exact served_bump p.shared hk

end

/-! ### A write that is committed and not bumped yet -/

/-- The entry of a DocType in the only broker of a tenant. -/
def desk : MetaKey := ⟨.doctype 0, "acme", "desk"⟩

/-- Tables in which every DocType is without fields. -/
def bare : MetaTables Unit where
  doctype name := .ok ⟨name, []⟩
  notifications _ := .ok ()
  scripts _ := none

/-- Gives every DocType a field. -/
def addNote (tables : MetaTables Unit) : MetaTables Unit :=
  { tables with doctype := fun name => .ok ⟨name, [⟨"note", "", none⟩]⟩ }

/-- Two readers, and a writer in between. -/
def deskThreads : Fin 3 → MetaThread Unit
  | 0 => .read desk
  | 1 => .write "acme" [addNote]
  | 2 => .read desk

/-- The process of `deskThreads` after a schedule. -/
def deskAfter (schedule : List (Fin 3)) : Process Unit (Fin 3) :=
  Pool.played env MetaState.answer (start (fun _ => bare) deskThreads) schedule

theorem answers_answer (s : MetaState Unit) (q : MetaRequest Unit) :
    MetaState.Answers s q (MetaState.answer s q).1 (MetaState.answer s q).2 := by
  cases q with
  | generation _ => exact ⟨rfl, rfl⟩
  | lookup _ => exact ⟨rfl, rfl⟩
  | uncached _ => exact ⟨rfl, Or.inr rfl⟩
  | insert _ _ _ => rfl
  | commit _ _ => exact Or.inl rfl
  | bump _ => rfl

theorem run_deskAfter (schedule : List (Fin 3)) : ∃ es,
    Run (Pool.Moves env) (start (fun _ => bare) deskThreads) es (deskAfter schedule) :=
  ⟨_, Pool.run_moves (Pool.run_play answers_answer schedule _)⟩

/-- The second reader looks into the cache after the commit and before the bump. -/
theorem step_deskAfter : Pool.Step env (deskAfter [0, 0, 0, 0, 1, 2])
    ⟨2, .lookup desk, some (0, ⟨"desk", []⟩)⟩ (deskAfter [0, 0, 0, 0, 1, 2, 2]) :=
  Pool.step_of_next? (i := 2) answers_answer rfl

theorem caches_coherent_desk : ∃ g,
    ((deskAfter [0, 0, 0, 0, 1, 2]).known 2).sampled "acme" = some g ∧
      LoadedFrom (deskAfter [0, 0, 0, 0, 1, 2]).shared desk
        ((deskAfter [0, 0, 0, 0, 1, 2]).shared.began "acme" g) (⟨"desk", []⟩ : DocTypeMeta) := by
  obtain ⟨es, hrun⟩ := run_deskAfter [0, 0, 0, 0, 1, 2]
  obtain ⟨g, hg, hloaded, _⟩ := (caches_coherent hrun).2.1 2 desk _ _ _ step_deskAfter rfl
  exact ⟨g, hg, hloaded⟩

/-- What a cache answers is not always what a load of the same generation gives. -/
theorem not_served_as_uncached : ¬ ∀ (tables : String → MetaTables Unit)
    (threads : Fin 3 → MetaThread Unit) es (p : Process Unit (Fin 3)) i (k : MetaKey) entry v p',
    Run (Pool.Moves env) (start tables threads) es p → Pool.Step env p ⟨i, .lookup k, entry⟩ p' →
    p'.prog i = .done (.ok (some ⟨k, v⟩)) →
    (p.known i).sampled k.tenant = some (p.shared.gen k.tenant) →
    (p.shared.current k.tenant).load k = .ok v := by
  intro h
  obtain ⟨es, hrun⟩ := run_deskAfter [0, 0, 0, 0, 1, 2]
  have hload := h _ _ es _ 2 desk _ _ _ hrun step_deskAfter rfl rfl
  have hfields : (Except.ok ⟨"desk", [⟨"note", "", none⟩]⟩ : Except BrokerError DocTypeMeta)
      = .ok ⟨"desk", []⟩ := hload
  exact absurd hfields (by decide)

end Metadata

end Frust.Kernel
