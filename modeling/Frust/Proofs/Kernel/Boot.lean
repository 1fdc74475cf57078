import Frust.Kernel.Boot

/-!
# `Frust.Proofs.Kernel.Boot`: what boots do to the meta version

A boot is in its window from when it has the lock to its apply transaction, its release or its
end. Only there does the version that it has read count. As long as nobody takes the lock row
away while another boot is in its window, there is never more than one (`Guarded`), and what it
has read is what is stored. So it applies a newer version, and over an older record only when it
was told to (`boot_never_downgrades`).

A boot that is stalled in its window for longer than the lock's threshold loses the row and does
not notice (`not_boot_never_downgrades`).
-/

set_option autoImplicit false

namespace Frust.Kernel

open Frust.Lib

namespace Boot

variable {ι : Type}

/-- What a boot was asked and answered. -/
abbrev BootAsked := Pool.Asked BootRequest BootAnswer

/-- The database, and what its boots keep. -/
def bootTraffic : Env BootRequest BootAnswer BootDb (List BootAsked) := Pool.keeping BootDb.Answers

/-- The boots of a database. -/
abbrev BootPool (ι : Type) :=
  Pool BootError BootRequest BootAnswer BootReport BootDb (List BootAsked) ι

/-- Before any boot has begun. -/
def booting (nodes : ι → Node) (db : BootDb) : BootPool ι where
  shared := db
  prog i := boot (nodes i)
  known _ := []

/-! ### One boot -/

/-- The boot's `CREATE` has made the lock row. -/
def Holds (k : List BootAsked) : Prop :=
  ∃ holder stmts, ⟨.createLock holder, .ok stmts⟩ ∈ k ∧ allOk stmts = true

/-- The boot has read the version. -/
def Reads (k : List BootAsked) : Prop := ∃ r, ⟨.selectVersion, r⟩ ∈ k

/-- The boot has sent its apply transaction. -/
def Applies (k : List BootAsked) : Prop := ∃ h f t r, ⟨.applyMeta h f t, r⟩ ∈ k

/-- The boot has sent its release. -/
def Releases (k : List BootAsked) : Prop := ∃ h r, ⟨.releaseLock h, r⟩ ∈ k

/-- A version that the boot has read. -/
def HasRead (k : List BootAsked) (v : Option Int) : Prop :=
  ∃ stmts, ⟨.selectVersion, .ok stmts⟩ ∈ k ∧ metaVersionOf stmts = .ok v

/-- A version over which a node applies its own. -/
def AppliesOver (node : Node) (v : Option Int) : Prop :=
  v = none ∨ ∃ w, v = some w ∧ w < node.metaSchemaVersion ∧ node.acceptMetaMigrations = true

/-- What a boot asks, by what it was answered before. -/
def May (node : Node) (k : List BootAsked) : BootRequest → Prop
  | .createLock _ => ¬Reads k
  | .deleteLock => ¬Holds k
  | .applyMeta _ _ t => t = node.metaSchemaVersion ∧ Holds k ∧ ¬Applies k ∧ ¬Releases k ∧
      ∃ v, HasRead k v ∧ AppliesOver node v
  | _ => True

/-- A boot asks what it may. -/
abbrev BootSafe (node : Node) {α : Type} (post : List BootAsked → Except BootError α → Prop) :=
  Pool.Safe (α := α) bootTraffic (fun _ _ _ => True) (May node) post

section

variable {node : Node} {k : List BootAsked} {α : Type}
  {post : List BootAsked → Except BootError α → Prop}

/-- Nothing of the window has happened yet. -/
structure Outside (k : List BootAsked) : Prop where
  holds : ¬Holds k
  reads : ¬Reads k
  applies : ¬Applies k
  releases : ¬Releases k

/-- The boot has the lock, and nothing else has happened. -/
structure Inside (k : List BootAsked) : Prop where
  holds : Holds k
  reads : ¬Reads k
  applies : ¬Applies k
  releases : ¬Releases k

/-- The requests that matter for the window. -/
def Matters : BootRequest → Prop
  | .createLock _ | .selectVersion | .applyMeta _ _ _ | .releaseLock _ => True
  | _ => False

theorem not_holds_snoc {q : BootRequest} {r : BootAnswer q} (hk : ¬Holds k)
    (hq : ∀ holder, q ≠ .createLock holder) : ¬Holds (k ++ [⟨q, r⟩]) := by
  rintro ⟨holder, stmts, hmem, hok⟩
  rcases List.mem_append.mp hmem with hmem | hmem
  · exact hk ⟨holder, stmts, hmem, hok⟩
  · cases List.mem_singleton.mp hmem
    exact hq holder rfl

theorem not_reads_snoc {q : BootRequest} {r : BootAnswer q} (hk : ¬Reads k)
    (hq : q ≠ .selectVersion) : ¬Reads (k ++ [⟨q, r⟩]) := by
  rintro ⟨r', hmem⟩
  rcases List.mem_append.mp hmem with hmem | hmem
  · exact hk ⟨r', hmem⟩
  · cases List.mem_singleton.mp hmem
    exact hq rfl

theorem not_applies_snoc {q : BootRequest} {r : BootAnswer q} (hk : ¬Applies k)
    (hq : ∀ h f t, q ≠ .applyMeta h f t) : ¬Applies (k ++ [⟨q, r⟩]) := by
  rintro ⟨h, f, t, r', hmem⟩
  rcases List.mem_append.mp hmem with hmem | hmem
  · exact hk ⟨h, f, t, r', hmem⟩
  · cases List.mem_singleton.mp hmem
    exact hq h f t rfl

theorem not_releases_snoc {q : BootRequest} {r : BootAnswer q} (hk : ¬Releases k)
    (hq : ∀ h, q ≠ .releaseLock h) : ¬Releases (k ++ [⟨q, r⟩]) := by
  rintro ⟨h, r', hmem⟩
  rcases List.mem_append.mp hmem with hmem | hmem
  · exact hk ⟨h, r', hmem⟩
  · cases List.mem_singleton.mp hmem
    exact hq h rfl

/-- A statement that does not matter leaves a boot outside. -/
theorem Outside.snoc {q : BootRequest} {r : BootAnswer q} (h : Outside k) (hq : ¬Matters q) :
    Outside (k ++ [⟨q, r⟩]) where
  holds := not_holds_snoc h.holds fun _ heq => hq (heq ▸ trivial)
  reads := not_reads_snoc h.reads fun heq => hq (heq ▸ trivial)
  applies := not_applies_snoc h.applies fun _ _ _ heq => hq (heq ▸ trivial)
  releases := not_releases_snoc h.releases fun _ heq => hq (heq ▸ trivial)

theorem Outside.created (h : Outside k) {holder : String} {stmts : List StmtResult}
    (hok : allOk stmts = true) : Inside (k ++ [⟨.createLock holder, .ok stmts⟩]) where
  holds := ⟨holder, stmts, by simp, hok⟩
  reads := not_reads_snoc h.reads (by simp)
  applies := not_applies_snoc h.applies (by simp)
  releases := not_releases_snoc h.releases (by simp)

theorem Outside.refused (h : Outside k) {holder : String}
    {r : Except BrokerError (List StmtResult)} (hr : ∀ stmts, r = .ok stmts → allOk stmts = false) :
    Outside (k ++ [⟨.createLock holder, r⟩]) where
  holds := by
    rintro ⟨holder', stmts, hmem, hok⟩
    rcases List.mem_append.mp hmem with hmem | hmem
    · exact h.holds ⟨holder', stmts, hmem, hok⟩
    · cases List.mem_singleton.mp hmem
      rw [hr stmts rfl] at hok
      cases hok
  reads := not_reads_snoc h.reads (by simp)
  applies := not_applies_snoc h.applies (by simp)
  releases := not_releases_snoc h.releases (by simp)

/-- The loop for the lock ends inside. -/
theorem safe_lockLoop (holder : String) (tries : Nat) (h : Outside k) :
    BootSafe node (fun k' r => ∀ a, r = .ok a → Inside k') k (lockLoop holder tries) := by
  induction tries generalizing k with
  | zero =>
      refine ⟨trivial, fun _ (r : Except BrokerError Json) _ _ _ => ?_⟩
      cases r <;> exact fun _ h => by cases h
  | succ tries ih =>
      refine ⟨h.reads, fun _ (r : Except BrokerError (List StmtResult)) _ _ _ => ?_⟩
      cases r with
      | error e => exact fun _ h => by cases h
      | ok stmts =>
          show BootSafe node _ _ (if allOk stmts then _ else _)
          split
          · rename_i hok
            exact fun _ _ => h.created hok
          · rename_i hok
            have hout : Outside (k ++ [⟨.createLock holder, .ok stmts⟩]) :=
              h.refused fun stmts' heq => by cases heq; simpa using hok
            refine ⟨trivial, fun _ (rows : Except BrokerError Json) _ _ _ => ?_⟩
            cases rows with
            | error e => exact fun _ h => by cases h
            | ok rows =>
                have haged := hout.snoc (q := .lockAge) (r := .ok rows) fun h => h
                show BootSafe node _ _ (if lockIsStale rows then _ else _)
                split
                · exact ⟨haged.holds, fun _ _ _ _ _ => ih (haged.snoc fun h => h)⟩
                · exact ih haged

theorem safe_lockAcquire (holder : String) (h : Outside k) :
    BootSafe node (fun k' r => ∀ a, r = .ok a → Inside k') k (lockAcquire holder) := by
  refine ⟨trivial, fun _ (r : Except BrokerError Json) _ _ _ => ?_⟩
  cases r with
  | error e => exact fun _ h => by cases h
  | ok v => exact safe_lockLoop holder Frust.Orm.lockWaitTries (h.snoc fun h => h)

/-- A further step asks nothing that matters. -/
theorem safe_step_bind {what : BootStep} {f : Unit → BootProg α} (herr : ∀ k e, post k (.error e))
    (hf : ∀ k, BootSafe node post k (f ())) : BootSafe node post k (step what >>= f) := by
  refine ⟨trivial, fun _ (r : Except BootError Unit) _ _ _ => ?_⟩
  cases r with
  | error e => exact herr _ e
  | ok _ => exact hf _

theorem safe_readMetaVersion (h : Inside k) :
    BootSafe node (fun k' r => ∀ v, r = .ok v →
      Holds k' ∧ ¬Applies k' ∧ ¬Releases k' ∧ HasRead k' v) k readMetaVersion := by
  refine ⟨trivial, fun _ (r : Except BrokerError (List StmtResult)) _ _ _ => ?_⟩
  cases r with
  | error e => exact fun _ h => by cases h
  | ok stmts =>
      intro v hv
      obtain ⟨holder, created, hmem, hok⟩ := h.holds
      exact ⟨⟨holder, created, List.mem_append_left _ hmem, hok⟩,
        not_applies_snoc h.applies (by simp), not_releases_snoc h.releases (by simp),
        ⟨stmts, List.mem_append_right _ (List.mem_singleton.mpr rfl), hv⟩⟩

theorem safe_applyMeta {v : Option Int} {fromVersion : Int} (hholds : Holds k)
    (happlies : ¬Applies k) (hreleases : ¬Releases k) (hread : HasRead k v)
    (hover : AppliesOver node v) :
    BootSafe node (fun _ _ => True) k (applyMeta node fromVersion) := by
  refine ⟨⟨rfl, hholds, happlies, hreleases, v, hread, hover⟩,
    fun _ (r : Except BrokerError Json) _ _ _ => ?_⟩
  cases r <;> trivial

theorem safe_migrateMeta {v : Option Int} (hholds : Holds k) (happlies : ¬Applies k)
    (hreleases : ¬Releases k) (hread : HasRead k v) :
    BootSafe node (fun _ _ => True) k (migrateMeta node v) := by
  unfold migrateMeta
  split
  · split
    · trivial
    · split
      · split
        · trivial
        · rename_i w _ hlt hack
          have hover : AppliesOver node (some w) := Or.inr ⟨w, rfl, hlt, by simpa using hack⟩
          exact Pool.Safe.bind (safe_applyMeta hholds happlies hreleases hread hover)
            (fun _ _ _ => trivial) fun _ _ _ => trivial
      · trivial
  · exact Pool.Safe.bind (safe_applyMeta hholds happlies hreleases hread (Or.inl rfl))
      (fun _ _ _ => trivial) fun _ _ _ => trivial

theorem safe_bootRest (applied : Bool) :
    BootSafe node (fun _ _ => True) k (bootRest node applied) := by
  unfold bootRest
  refine safe_step_bind (fun _ _ => trivial) fun _ => ?_
  refine safe_step_bind (fun _ _ => trivial) fun _ => ?_
  refine safe_step_bind (fun _ _ => trivial) fun k' => ?_
  have hread : BootSafe node (fun _ _ => True) k' readMetaVersion := by
    refine ⟨trivial, fun _ (r : Except BrokerError (List StmtResult)) _ _ _ => ?_⟩
    cases r <;> trivial
  refine Pool.Safe.bind hread (fun _ version _ => ?_) fun _ _ _ => trivial
  cases version with
  | none => trivial
  | some now =>
      show BootSafe node _ _ (if now ≠ node.metaSchemaVersion then _ else _)
      split
      · trivial
      · refine safe_step_bind (fun _ _ => trivial) fun _ => ?_
        refine safe_step_bind (fun _ _ => trivial) fun _ => ?_
        refine safe_step_bind (fun _ _ => trivial) fun _ => ?_
        exact safe_step_bind (fun _ _ => trivial) fun _ => trivial

theorem safe_bootLocked (h : Inside k) :
    BootSafe node (fun _ _ => True) k (bootLocked node) := by
  unfold bootLocked
  refine Pool.Safe.bind (safe_readMetaVersion h) (fun k' v hread => ?_) fun _ _ _ => trivial
  obtain ⟨hholds, happlies, hreleases, hv⟩ := hread v rfl
  exact Pool.Safe.bind (safe_migrateMeta hholds happlies hreleases hv)
    (fun _ applied _ => safe_bootRest applied) fun _ _ _ => trivial

theorem safe_boot (node : Node) : BootSafe node (fun _ _ => True) [] (boot node) := by
  have hout : Outside [] := by
    constructor <;> simp [Holds, Reads, Applies, Releases]
  unfold boot
  refine Pool.Safe.bind (safe_lockAcquire node.holder hout) (fun k' _ hin => ?_) fun _ _ _ => trivial
  have hlocked : BootSafe node (fun _ _ => True) k' (bootLocked node).attempt :=
    Pool.Safe.attempt (safe_bootLocked (hin () rfl)) fun _ _ _ => trivial
  exact Pool.Safe.bind hlocked (fun _ _ _ => ⟨trivial, fun _ _ _ _ _ => trivial⟩)
    fun _ _ _ => trivial

end

/-! ### One statement -/

section

variable {s s' : BootDb}

/-- Only an apply transaction changes the meta version. -/
theorem same_of_answers {q : BootRequest} {r : BootAnswer q} (h : s.Answers q r s')
    (hq : ∀ holder f t, q ≠ .applyMeta holder f t) : s'.record = s.record ∧ s'.log = s.log := by
  obtain ⟨s₁, heffect, elapsed, rfl⟩ := h
  show s₁.record = s.record ∧ s₁.log = s.log
  cases q with
  | defineLock => exact heffect ▸ ⟨rfl, rfl⟩
  | step _ => exact heffect ▸ ⟨rfl, rfl⟩
  | lockAge => exact heffect.1 ▸ ⟨rfl, rfl⟩
  | lockHolder => exact heffect.1 ▸ ⟨rfl, rfl⟩
  | selectVersion => exact heffect.1 ▸ ⟨rfl, rfl⟩
  | createLock holder =>
      rcases heffect with ⟨_, rfl⟩ | ⟨rfl, _⟩ <;> exact ⟨rfl, rfl⟩
  | deleteLock =>
      rcases heffect with rfl | rfl <;> exact ⟨rfl, rfl⟩
  | releaseLock holder =>
      rcases heffect with rfl | rfl
      · unfold BootDb.released
        split <;> exact ⟨rfl, rfl⟩
      · exact ⟨rfl, rfl⟩
  | applyMeta holder f t => exact absurd rfl (hq holder f t)

/-- The apply transaction is done or not. -/
theorem applied_of_answers {holder : String} {f t : Int} {r : Except BrokerError Json}
    (h : s.Answers (.applyMeta holder f t) r s') : (s'.record = s.record ∧ s'.log = s.log) ∨
      (s'.record = some (.int t) ∧ s'.log = s.log ++ [⟨f, t, holder⟩]) := by
  obtain ⟨s₁, heffect, elapsed, rfl⟩ := h
  rcases heffect with rfl | ⟨rfl, _⟩
  · exact Or.inr ⟨rfl, rfl⟩
  · exact Or.inl ⟨rfl, rfl⟩

theorem read_of_answers {stmts : List StmtResult} {v : Option Int}
    (h : s.Answers .selectVersion (.ok stmts) s') (hv : metaVersionOf stmts = .ok v) :
    v = s.version := by
  obtain ⟨s₁, ⟨rfl, hstmts⟩, _⟩ := h
  rcases hstmts stmts rfl with rfl | ⟨detail, rfl, hnone⟩
  · cases hv
    unfold BootDb.version BootDb.versionRows
    cases s₁.record <;> rfl
  · replace hv : (if contains detail "does not exist" then .ok none else .error (.db detail)) =
      (.ok v : Except BootError (Option Int)) := hv
    split at hv
    · rename_i hmissing
      cases hv
      unfold BootDb.version
      rw [hnone hmissing]
      rfl
    · cases hv

/-- A statement that removes the lock row. -/
def Removes (s : BootDb) (q : BootRequest) : Prop :=
  (q = .deleteLock ∧ s.lock ≠ none) ∨
    ∃ holder, q = .releaseLock holder ∧ s.lock.any (·.holder = holder) = true

/-- A lock row stays where no statement removes it. -/
theorem lock_of_answers {q : BootRequest} {r : BootAnswer q} (h : s.Answers q r s')
    (hq : ¬Removes s q) (hlock : s.lock ≠ none) : s'.lock ≠ none := by
  obtain ⟨s₁, heffect, elapsed, rfl⟩ := h
  show s₁.lock ≠ none
  cases q with
  | defineLock => exact heffect ▸ hlock
  | step _ => exact heffect ▸ hlock
  | lockAge => exact heffect.1 ▸ hlock
  | lockHolder => exact heffect.1 ▸ hlock
  | selectVersion => exact heffect.1 ▸ hlock
  | createLock holder =>
      rcases heffect with ⟨_, rfl⟩ | ⟨rfl, _⟩
      · simp [BootDb.locked]
      · exact hlock
  | deleteLock => exact absurd (Or.inl ⟨rfl, hlock⟩) hq
  | releaseLock holder =>
      rcases heffect with rfl | rfl
      · unfold BootDb.released
        split
        · rename_i hmine
          exact absurd (Or.inr ⟨holder, rfl, hmine⟩) hq
        · exact hlock
      · exact hlock
  | applyMeta holder f t => rcases heffect with rfl | ⟨rfl, _⟩ <;> exact hlock

/-- A `CREATE` that succeeds found no row, and makes one. -/
theorem created_of_answers {holder : String} {stmts : List StmtResult}
    (h : s.Answers (.createLock holder) (.ok stmts) s') (hok : allOk stmts = true) :
    s.lock = none ∧ s'.lock ≠ none := by
  obtain ⟨s₁, heffect, elapsed, rfl⟩ := h
  rcases heffect with ⟨hnone, rfl⟩ | ⟨_, hfailed⟩
  · exact ⟨hnone, by simp [BootDb.locked]⟩
  · rw [hfailed stmts rfl] at hok
    cases hok

end

/-! ### All boots -/

section

variable {nodes : ι → Node} {p p' : BootPool ι}

/-- The boots that have the lock and may still apply. -/
def Window (p : BootPool ι) : Set ι :=
  {i | Holds (p.known i) ∧ ¬Applies (p.known i) ∧ ¬Releases (p.known i) ∧ ∀ r, p.prog i ≠ .done r}

/-- The lock row is not removed while another boot may still apply. -/
def Undisturbed (p : BootPool ι) (e : Pool.Event BootRequest BootAnswer ι) (_ : BootPool ι) :
    Prop :=
  ∀ t, e = .turn t → Removes p.shared t.request → ∀ i ∈ Window p, i = t.thread

/-- The meta record, where there is one, has an integer for a version. -/
def Readable (s : BootDb) : Prop := ∀ v, s.record = some v → ∃ n, v.asInt = some n

/-- At most one boot is in its window, and what it has read is what is stored. -/
structure Guarded (nodes : ι → Node) (p : BootPool ι) : Prop where
  safe : ∀ i, BootSafe (nodes i) (fun _ _ => True) (p.known i) (p.prog i)
  alone : ∀ i ∈ Window p, ∀ j ∈ Window p, i = j
  locked : ∀ i ∈ Window p, p.shared.lock ≠ none
  current : ∀ i ∈ Window p, ∀ v, HasRead (p.known i) v → v = p.shared.version
  readable : Readable p.shared

variable [DecidableEq ι] {t : Turn BootRequest BootAnswer ι}

/-- Who is in the window after a step was so before, or has just got the lock. -/
theorem window_step (h : Pool.Step bootTraffic p t p') {i : ι} (hi : i ∈ Window p') :
    i ∈ Window p ∨ ∃ holder stmts, t = ⟨i, .createLock holder, .ok stmts⟩ ∧
      allOk stmts = true := by
  obtain ⟨⟨holder, stmts, hcreated, hok⟩, hnotApplied, hnotReleased, hgoing⟩ := hi
  have hnotApplied' : ¬Applies (p.known i) := by
    rintro ⟨h', f, v, r, hmem⟩
    exact hnotApplied ⟨h', f, v, r, Pool.kept_mono h hmem⟩
  have hnotReleased' : ¬Releases (p.known i) := by
    rintro ⟨h', r, hmem⟩
    exact hnotReleased ⟨h', r, Pool.kept_mono h hmem⟩
  have hgoing' : ∀ r, p.prog i ≠ .done r := by
    intro r hdone
    obtain ⟨r', hdone'⟩ := Pool.Moves.done (e := .turn t) h hdone
    exact hgoing r' hdone'
  rcases (Pool.mem_kept h).mp hcreated with hcreated | ⟨rfl, hx⟩
  · exact Or.inl ⟨⟨holder, stmts, hcreated, hok⟩, hnotApplied', hnotReleased', hgoing'⟩
  · refine Or.inr ⟨holder, stmts, ?_, hok⟩
    obtain ⟨thread, request, answer⟩ := t
    cases hx
    rfl

/-- Who asks is in the window, if it has the lock and has neither applied nor released. -/
theorem mem_window_of_asks (h : Pool.Step bootTraffic p t p') (hholds : Holds (p.known t.thread))
    (happlies : ¬Applies (p.known t.thread)) (hreleases : ¬Releases (p.known t.thread)) :
    t.thread ∈ Window p := by
  refine ⟨hholds, happlies, hreleases, fun r hdone => ?_⟩
  obtain ⟨next, hask, _⟩ := h
  rw [hask] at hdone
  cases hdone

/-- A boot that has sent its apply transaction or its release is in the window no more. -/
theorem not_mem_window (h : Pool.Step bootTraffic p t p')
    (hq : (∃ holder f v, t.request = .applyMeta holder f v) ∨
      ∃ holder, t.request = .releaseLock holder) : t.thread ∉ Window p' := by
  rintro ⟨_, happlies, hreleases, _⟩
  have hkept : ⟨t.request, t.answer⟩ ∈ p'.known t.thread :=
    (Pool.mem_kept h).mpr (Or.inr ⟨rfl, rfl⟩)
  obtain ⟨thread, request, answer⟩ := t
  rcases hq with ⟨holder, f, v, rfl⟩ | ⟨holder, rfl⟩
  · exact happlies ⟨holder, f, v, answer, hkept⟩
  · exact hreleases ⟨holder, answer, hkept⟩

/-- After the row was removed, nobody is in the window. -/
theorem window_of_removes (hp : Guarded nodes p) (h : Pool.Step bootTraffic p t p')
    (hcond : Undisturbed p (.turn t) p') (hq : Removes p.shared t.request) (i : ι) :
    i ∉ Window p' := by
  intro hi
  have hmay := Pool.Safe.asks h (hp.safe t.thread)
  rcases window_step h hi with hwas | ⟨holder, stmts, rfl, _⟩
  · have hself := hcond t rfl hq i hwas
    subst hself
    rcases hq with ⟨hq, _⟩ | ⟨holder, hq, _⟩
    · -- who steals has no lock
      rw [hq] at hmay
      exact hmay hwas.1
    · exact not_mem_window h (Or.inr ⟨holder, hq⟩) hi
  · rcases hq with ⟨hq, _⟩ | ⟨_, hq, _⟩ <;> cases hq

/-- A step keeps the database guarded. -/
theorem Guarded.step (hp : Guarded nodes p) (h : Pool.Step bootTraffic p t p')
    (hcond : Undisturbed p (.turn t) p') : Guarded nodes p' := by
  have hsafe : ∀ i, BootSafe (nodes i) (fun _ _ => True) (p'.known i) (p'.prog i) :=
    fun i => Pool.Safe.step h trivial (hp.safe i)
  have hmay := Pool.Safe.asks h (hp.safe t.thread)
  by_cases happly : ∃ holder f v, t.request = .applyMeta holder f v
  · -- the boot that applies was alone in the window, and leaves it
    obtain ⟨holder, f, v, hq⟩ := happly
    rw [hq] at hmay
    obtain ⟨_, hholds, happlies, hreleases, _⟩ := hmay
    have hwas := mem_window_of_asks h hholds happlies hreleases
    have hempty : ∀ i, i ∉ Window p' := by
      intro i hi
      rcases window_step h hi with hi' | ⟨_, _, rfl, _⟩
      · cases hp.alone i hi' t.thread hwas
        exact not_mem_window h (Or.inl ⟨holder, f, v, hq⟩) hi
      · cases hq
    refine ⟨hsafe, fun i hi => absurd hi (hempty i), fun i hi => absurd hi (hempty i),
      fun i hi => absurd hi (hempty i), fun w hw => ?_⟩
    have hans := h.answers
    obtain ⟨thread, request, answer⟩ := t
    cases hq
    rcases applied_of_answers hans with ⟨hrecord, _⟩ | ⟨hrecord, _⟩
    · exact hp.readable w (hrecord ▸ hw)
    · rw [hrecord] at hw
      cases hw
      exact ⟨v, rfl⟩
  · have hsame := same_of_answers h.answers fun holder f v hq => happly ⟨holder, f, v, hq⟩
    have hversion : p'.shared.version = p.shared.version := by
      unfold BootDb.version
      rw [hsame.1]
    have hreadable : Readable p'.shared := fun w hw => hp.readable w (hsame.1 ▸ hw)
    by_cases hremoves : Removes p.shared t.request
    · have hempty := window_of_removes hp h hcond hremoves
      exact ⟨hsafe, fun i hi => absurd hi (hempty i), fun i hi => absurd hi (hempty i),
        fun i hi => absurd hi (hempty i), hreadable⟩
    · by_cases hcreate : ∃ holder stmts, t = ⟨t.thread, .createLock holder, .ok stmts⟩ ∧
        allOk stmts = true
      · -- there was no row, and so nobody was in the window
        obtain ⟨holder, stmts, ht, hok⟩ := hcreate
        have hans := h.answers
        rw [ht] at hans hmay
        obtain ⟨hnone, hsome⟩ := created_of_answers hans hok
        have honly : ∀ i ∈ Window p', i = t.thread := by
          intro i hi
          rcases window_step h hi with hi | ⟨_, _, ht', _⟩
          · exact absurd hnone (hp.locked i hi)
          · rw [ht']
        refine ⟨hsafe, fun i hi j hj => (honly i hi).trans (honly j hj).symm, fun _ _ => hsome,
          fun i hi w hread => ?_, hreadable⟩
        cases honly i hi
        obtain ⟨read, hmem, _⟩ := hread
        rcases (Pool.mem_kept h).mp hmem with hmem | ⟨_, hx⟩
        · exact absurd ⟨_, hmem⟩ hmay
        · rw [ht] at hx
          cases hx
      · -- the window only loses boots
        have hstays : ∀ i ∈ Window p', i ∈ Window p := by
          intro i hi
          rcases window_step h hi with hi | ⟨holder, stmts, ht, hok⟩
          · exact hi
          · exact absurd ⟨holder, stmts, by rw [ht], hok⟩ hcreate
        refine ⟨hsafe, fun i hi j hj => hp.alone i (hstays i hi) j (hstays j hj),
          fun i hi => lock_of_answers h.answers hremoves (hp.locked i (hstays i hi)),
          fun i hi w hread => ?_, hreadable⟩
        obtain ⟨stmts, hmem, hv⟩ := hread
        rcases (Pool.mem_kept h).mp hmem with hmem | ⟨rfl, hx⟩
        · rw [hversion]
          exact hp.current i (hstays i hi) w ⟨stmts, hmem, hv⟩
        · have hans := h.answers
          obtain ⟨thread, request, answer⟩ := t
          cases hx
          rw [hversion]
          exact read_of_answers hans hv

/-- A boot that stops leaves the window. -/
theorem Guarded.crash (hp : Guarded nodes p) {i : ι}
    (h : Pool.Moves bootTraffic p (.crash i) p') : Guarded nodes p' := by
  have hsafe : ∀ j, BootSafe (nodes j) (fun _ _ => True) (p'.known j) (p'.prog j) :=
    fun j => Pool.Safe.crash h (fun _ => trivial) (hp.safe j)
  have hstays : ∀ j ∈ Window p', j ∈ Window p := by
    rintro j ⟨hholds, happlies, hreleases, hgoing⟩
    obtain ⟨_, hknown, e, hprog⟩ := h
    rw [hknown] at hholds happlies hreleases
    refine ⟨hholds, happlies, hreleases, fun r hdone => ?_⟩
    by_cases hj : j = i
    · exact hgoing (.error e) (by rw [hprog, hj, Function.update_self])
    · exact hgoing r (by rw [hprog, Function.update_of_ne hj, hdone])
  obtain ⟨hshared, hknown, _⟩ := h
  refine ⟨hsafe, fun j hj k hk => hp.alone j (hstays j hj) k (hstays k hk), ?_, ?_, ?_⟩
  · rw [hshared]
    exact fun j hj => hp.locked j (hstays j hj)
  · rw [hshared, hknown]
    exact fun j hj => hp.current j (hstays j hj)
  · rw [hshared]
    exact hp.readable

theorem Guarded.moves (hp : Guarded nodes p) {e : Pool.Event BootRequest BootAnswer ι}
    (h : Pool.Moves bootTraffic p e p') (hcond : Undisturbed p e p') : Guarded nodes p' := by
  cases e with
  | turn t => exact hp.step h hcond
  | crash i => exact hp.crash h

omit [DecidableEq ι] in
theorem guarded_booting (nodes : ι → Node) {db : BootDb} (hdb : Readable db) :
    Guarded nodes (booting nodes db) where
  safe i := safe_boot (nodes i)
  alone := by rintro i ⟨⟨_, _, h, _⟩, _⟩; cases h
  locked := by rintro i ⟨⟨_, _, h, _⟩, _⟩; cases h
  current := by rintro i ⟨⟨_, _, h, _⟩, _⟩; cases h
  readable := hdb

/-! ### The meta version -/

omit [DecidableEq ι] in
/-- The version record stays; or a node's apply transaction sets its own version over no record,
or over an older one as it was told to. -/
def Upgrades (nodes : ι → Node) (p : BootPool ι) (e : Pool.Event BootRequest BootAnswer ι)
    (p' : BootPool ι) : Prop :=
  (p'.shared.record = p.shared.record ∧ p'.shared.log = p.shared.log) ∨
    ∃ t holder f, e = .turn t ∧
      t.request = .applyMeta holder f (nodes t.thread).metaSchemaVersion ∧
      p'.shared.record = some (.int (nodes t.thread).metaSchemaVersion) ∧
      p'.shared.log = p.shared.log ++ [⟨f, (nodes t.thread).metaSchemaVersion, holder⟩] ∧
      (p.shared.record = none ∨ ∃ v, p.shared.record = some (.int v) ∧
        v < (nodes t.thread).metaSchemaVersion ∧ (nodes t.thread).acceptMetaMigrations = true)

theorem upgrades_of_guarded (hp : Guarded nodes p) {e : Pool.Event BootRequest BootAnswer ι}
    (h : Pool.Moves bootTraffic p e p') : Upgrades nodes p e p' := by
  cases e with
  | crash i => exact Or.inl ⟨by rw [h.1], by rw [h.1]⟩
  | turn t =>
      by_cases happly : ∃ holder f v, t.request = .applyMeta holder f v
      · obtain ⟨holder, f, v, hq⟩ := happly
        -- Only in its window does a boot apply a version, and what it has read there is what is
        -- stored.
        have hmay := Pool.Safe.asks h (hp.safe t.thread)
        rw [hq] at hmay
        obtain ⟨hv, hholds, happlies, hreleases, w, hread, hover⟩ := hmay
        have hwas := mem_window_of_asks h hholds happlies hreleases
        have hstored := hp.current t.thread hwas w hread
        have hans := Pool.Step.answers h
        obtain ⟨thread, request, answer⟩ := t
        cases hq
        change v = (nodes thread).metaSchemaVersion at hv
        subst hv
        rcases applied_of_answers hans with hsame | ⟨hrecord, hlog⟩
        · exact Or.inl hsame
        · refine Or.inr ⟨_, holder, f, rfl, rfl, hrecord, hlog, ?_⟩
          -- Either nothing was stored, or the stored version is lower or was acknowledged.
          unfold BootDb.version at hstored
          cases hold : p.shared.record with
          | none => exact Or.inl rfl
          | some stored =>
              obtain ⟨n, hn⟩ := hp.readable stored hold
              have hint : stored = .int n := by
                cases stored <;> cases hn
                rfl
              rw [hold, Option.bind_some, hn] at hstored
              rcases hover with rfl | ⟨w', rfl, hlt, hack⟩
              · cases hstored
              · cases hstored
                exact Or.inr ⟨n, by rw [hint], hlt, hack⟩
      · exact Or.inl (same_of_answers (Pool.Step.answers h) fun holder f v hq =>
          happly ⟨holder, f, v, hq⟩)

/-- Since `db` the log has got new rows, with increasing versions above the one stored at
first, and the last is the one stored now. -/
def Ascends (db s : BootDb) : Prop :=
  ∃ new, s.log = db.log ++ new ∧
    (db.version.toList ++ new.map MetaApplied.toVersion).Pairwise (· < ·) ∧
    s.version = (db.version.toList ++ new.map MetaApplied.toVersion).getLast?

omit [DecidableEq ι] in
theorem Ascends.upgrades {db : BootDb} {e : Pool.Event BootRequest BootAnswer ι}
    (ha : Ascends db p.shared) (h : Upgrades nodes p e p') : Ascends db p'.shared := by
  obtain ⟨new, hlog, hpairwise, hlast⟩ := ha
  rcases h with ⟨hrecord, hlog'⟩ | ⟨t, holder, f, _, _, hrecord, hlog', hover⟩
  · refine ⟨new, by rw [hlog', hlog], hpairwise, ?_⟩
    rw [← hlast]
    unfold BootDb.version
    rw [hrecord]
  · have hversion : p'.shared.version = some (nodes t.thread).metaSchemaVersion := by
      unfold BootDb.version
      rw [hrecord]
      rfl
    refine ⟨new ++ [⟨f, (nodes t.thread).metaSchemaVersion, holder⟩], ?_, ?_, ?_⟩
    · rw [hlog', hlog, List.append_assoc]
    · rw [List.map_append, ← List.append_assoc, List.pairwise_append]
      refine ⟨hpairwise, List.pairwise_singleton _ _, fun a ha b hb => ?_⟩
      cases List.mem_singleton.mp hb
      -- the last version so far is the one stored, and the others are below it
      have hle : ∀ v, p.shared.version = some v → a ≤ v := by
        intro v hv
        rw [hlast] at hv
        obtain ⟨init, hinit⟩ := List.getLast?_eq_some_iff.mp hv
        rw [hinit] at ha hpairwise
        rcases List.mem_append.mp ha with ha | ha
        · exact ((List.pairwise_append.mp hpairwise).2.2 a ha v (by simp)).le
        · exact (List.mem_singleton.mp ha).le
      rcases hover with hnone | ⟨v, hsome, hlt, _⟩
      · have hempty : p.shared.version = none := by
          unfold BootDb.version
          rw [hnone]
          rfl
        rw [hlast, List.getLast?_eq_none_iff] at hempty
        rw [hempty] at ha
        cases ha
      · refine lt_of_le_of_lt (hle v ?_) hlt
        unfold BootDb.version
        rw [hsome]
        rfl
    · rw [hversion, List.map_append, ← List.append_assoc]
      simp

/-- The stored meta version never decreases, each is applied at most once, and a record that is
there is replaced only by a node that was told to. -/
def NeverDowngrades (nodes : ι → Node) (db : BootDb) (p : BootPool ι) : Prop :=
  Ascends db p.shared ∧
    ∀ e p', Pool.Moves bootTraffic p e p' → Upgrades nodes p e p'

/-- In a run in which the lock row is never removed while another boot has the lock and may still
apply, on a database whose meta record has an integer for a version. -/
theorem boot_never_downgrades {db : BootDb} (hdb : Readable db)
    {es : List (Pool.Event BootRequest BootAnswer ι)}
    (h : Run.Steps (Pool.Moves bootTraffic) (booting nodes db) Undisturbed es p) :
    NeverDowngrades nodes db p := by
  -- At first no boot is in its window, and nothing was logged since `db`.
  have hstart : Guarded nodes (booting nodes db) ∧ Ascends db (booting nodes db).shared := by
    refine ⟨guarded_booting nodes hdb, [], by simp [booting], ?_, ?_⟩
    · cases db.version <;> simp
    · show db.version = _
      cases db.version <;> simp
  obtain ⟨hguarded, hascends⟩ := h.invariant
    (I := fun p => Guarded nodes p ∧ Ascends db p.shared) hstart fun a e b ha hmove hcond =>
      ⟨ha.1.moves hmove hcond, ha.2.upgrades (upgrades_of_guarded ha.1 hmove)⟩
  exact ⟨hascends, fun e p' hmove => upgrades_of_guarded hguarded hmove⟩

end

/-! ### One node, and two -/

theorem answers_answer (elapsed : Nat) (s : BootDb) (q : BootRequest) :
    bootTraffic.answers s q (s.answer elapsed q).1 (s.answer elapsed q).2 := by
  cases q with
  | defineLock | step _ => exact ⟨s, rfl, elapsed, rfl⟩
  | lockAge => exact ⟨s, ⟨rfl, fun _ h => by cases h; rfl⟩, elapsed, rfl⟩
  | lockHolder => exact ⟨s, ⟨rfl, fun _ h => by cases h; rfl⟩, elapsed, rfl⟩
  | selectVersion => exact ⟨s, ⟨rfl, fun _ h => by cases h; exact Or.inl rfl⟩, elapsed, rfl⟩
  | deleteLock => exact ⟨s.unlocked, Or.inl rfl, elapsed, rfl⟩
  | releaseLock holder => exact ⟨s.released holder, Or.inl rfl, elapsed, rfl⟩
  | applyMeta holder f t => exact ⟨s.applied holder f t, Or.inl rfl, elapsed, rfl⟩
  | createLock holder =>
      unfold BootDb.answer
      cases hlock : s.lock with
      | none => exact ⟨s.locked holder, Or.inl ⟨hlock, rfl⟩, elapsed, rfl⟩
      | some row => exact ⟨s, Or.inr ⟨rfl, fun _ h => by cases h; rfl⟩, elapsed, rfl⟩

/-- A node, and one with a newer binary. -/
def rolling : Fin 2 → Node
  | 0 => ⟨"pid-1", 10, true⟩
  | 1 => ⟨"pid-2", 11, true⟩

/-- The database after a schedule of their statements, of which each takes 61 seconds. -/
def rolled (db : BootDb) (schedule : List (Fin 2)) : BootPool (Fin 2) :=
  Pool.played bootTraffic (BootDb.answer 61000000000) (booting rolling db) schedule

/-- A release. -/
def isRelease : BootRequest → Bool
  | .releaseLock _ => true
  | _ => false

/-- One after the other, on a fresh database. -/
theorem boot_never_downgrades_rolling :
    (rolled {} (List.replicate 13 0 ++ List.replicate 13 1)).shared.version = some 11 ∧
      NeverDowngrades rolling {} (rolled {} (List.replicate 13 0 ++ List.replicate 13 1)) := by
  have hdb : Readable {} := fun v h => by cases h
  -- nobody steals, and the other boot has not begun or has released
  have hapart : ∀ x ∈ Pool.play bootTraffic (BootDb.answer 61000000000) (booting rolling {})
      (List.replicate 13 0 ++ List.replicate 13 1), ∀ i, i ≠ x.2.1.thread →
        (x.1.known i).isEmpty = true ∨ (x.1.known i).any (isRelease ·.request) = true := by
    decide +kernel
  have hrun : Run.Steps (Pool.Moves bootTraffic) (booting rolling {}) Undisturbed _
      (rolled {} (List.replicate 13 0 ++ List.replicate 13 1)) :=
    Pool.steps_moves (Pool.steps_play (answers_answer 61000000000) _ _ fun x hx t ht _ i hi => by
      cases ht
      by_contra hne
      obtain ⟨⟨_, _, hmem, _⟩, _, hreleases, _⟩ := hi
      rcases hapart x hx i hne with hempty | hreleased
      · rw [List.isEmpty_iff.mp hempty] at hmem
        cases hmem
      · obtain ⟨⟨request, answer⟩, hin, hrelease⟩ := List.any_eq_true.mp hreleased
        cases request <;> try cases hrelease
        exact hreleases ⟨_, answer, hin⟩)
  exact ⟨by decide +kernel, boot_never_downgrades hdb hrun⟩

/-- The first node has read version 9 when it is stalled. The second finds the lock stale, takes
it and migrates to 11; then the first goes on, and sets version 10. -/
theorem not_boot_never_downgrades :
    ¬∀ (nodes : Fin 2 → Node) (db : BootDb) es p, Readable db →
      Run (Pool.Moves bootTraffic) (booting nodes db) es p → NeverDowngrades nodes db p := by
  intro h
  have hrun := Pool.run_moves (Pool.run_play (answers_answer 61000000000)
    ([0, 0, 0] ++ List.replicate 7 1 ++ [0]) (booting rolling { record := some (.int 9) }))
  obtain ⟨⟨new, hlog, hpairwise, _⟩, _⟩ := h rolling { record := some (.int 9) } _ _
    (fun v hv => by cases hv; exact ⟨9, rfl⟩) hrun
  have hnew : new = [⟨9, 11, "pid-2"⟩, ⟨9, 10, "pid-1"⟩] := by
    rw [← List.nil_append new]
    refine hlog.symm.trans ?_
    decide +kernel
  rw [hnew] at hpairwise
  revert hpairwise
  decide +kernel

end Boot

end Frust.Kernel
