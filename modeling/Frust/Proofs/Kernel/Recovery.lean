import Frust.Kernel.Recovery

/-!
# `Frust.Proofs.Kernel.Recovery`: no restore without a way back

Until it resets the database, a restore asks nothing that changes it (`until_run`). When it asks
for the reset, it has gone through its preflight to the end: the input was verified, the safety
backup was made and published, and the input was verified again with the same manifest
(`preflight_done`). A backup is published by renaming what was verified, so at every moment the
output is as it was or it verifies (`always_createBackup`).

Any request may fail, and others may do anything meanwhile, but for writing to the output and
the staging directory of the backup.
-/

set_option autoImplicit false

namespace Frust.Kernel

open Frust.Lib Frust.Lib.Prog

namespace Recovery

variable {δ β : Type} {world : RecoveryWorld δ β} {own : Path → Prop}

/-! ### What changes the database -/

/-- The reset. -/
def IsReset : Request → Prop
  | .resetDatabase _ => True
  | _ => False

/-- A request that changes the target's database. -/
def Changes : Request → Prop
  | .resetDatabase _ | .importDump _ _ | .rotateAccess _ => True
  | _ => False

/-- A request that only reads the file system. -/
def Reads : Request → Prop
  | .isDir _ | .fileExists _ | .openManifest _ | .readManifest _ | .openDump _ | .hashDump _ => True
  | _ => False

/-- A request that writes no directory. -/
def Quiet : Request → Prop
  | .createDir _ | .writeManifest _ _ | .rename _ _ | .removeDirAll _ | .exportDump _ _ => False
  | _ => True

theorem Reads.not_changes {q : Request} (h : Reads q) : ¬ Changes q := by
  cases q <;> first | exact h.elim | exact id

theorem Reads.quiet {q : Request} (h : Reads q) : Quiet q := by
  cases q <;> first | exact h.elim | trivial

section

variable {P : Request → Prop} {α γ : Type}

theorem only_ask {q : Request} {h : Answer q = Except RecoveryError α} (hq : P q) :
    (ask q h).Only P := ⟨hq, fun _ => trivial⟩

theorem only_askOr {before : String} {q : Request} {h : Answer q = Except RecoveryError α}
    (hq : P q) : (askOr before q h).Only P := ⟨hq, fun _ => trivial⟩

theorem only_ite {c : Prop} [Decidable c] {p p' : Procedure α} (h : p.Only P) (h' : p'.Only P) :
    (if c then p else p').Only P := by
  split
  · exact h
  · exact h'

theorem only_attempt {p : Procedure α} (h : p.Only P) : p.attempt.Only P := by
  induction p with
  | done result => trivial
  | ask q next ih => exact ⟨h.1, fun r => ih r (h.2 r)⟩

theorem only_orElse {p : Procedure α} {f : String → String} (h : p.Only P) :
    (orElse p f).Only P := by
  refine (only_attempt h).bind fun r => ?_
  cases r with
  | ok a => trivial
  | error e => trivial

end

theorem only_hashFile (dir : Path) : (hashFile dir).Only Reads :=
  (only_askOr trivial).bind fun _ => only_ask trivial

theorem only_verifyBackup (input : Path) : (verifyBackup input).Only Reads := by
  refine ⟨trivial, fun isDir => only_ite trivial ?_⟩
  refine (only_askOr trivial).bind fun _ => (only_askOr trivial).bind fun _ => ?_
  refine only_ite trivial (only_ite trivial ?_)
  exact (only_hashFile input).bind fun x => only_ite trivial (only_ite trivial trivial)

theorem only_fillAndPublish (target : ResolvedTenant) (staging output : Path) :
    (fillAndPublish target staging output).Only fun q => ¬ Changes q := by
  unfold fillAndPublish
  refine (only_done _).bind fun plan => (only_ask fun h => h).bind fun _ => ?_
  refine ((only_hashFile staging).mono fun _ => Reads.not_changes).bind fun x =>
    only_ite trivial ?_
  refine (only_askOr fun h => h).bind fun created => (only_ask fun h => h).bind fun _ => ?_
  refine (only_ask fun h => h).bind fun _ => ?_
  refine ((only_verifyBackup staging).mono fun _ => Reads.not_changes).bind fun _ => ?_
  exact (only_askOr fun h => h).bind fun _ => trivial

theorem only_createBackup (pid : Nat) (target : ResolvedTenant) (output : Path) :
    (createBackup pid target output).Only fun q => ¬ Changes q := by
  refine ⟨fun h => h, fun found => only_ite trivial ?_⟩
  refine (only_askOr fun h => h).bind fun _ => (only_done _).bind fun staging => ?_
  refine ⟨fun h => h, fun found => only_ite trivial ?_⟩
  refine (only_ask fun h => h).bind fun _ => ?_
  refine (only_attempt (only_fillAndPublish target staging output)).bind fun result => ?_
  cases result with
  | ok m => trivial
  | error e =>
      refine ⟨fun h => h, fun found => only_ite trivial ?_⟩
      exact ⟨fun h => h, fun _ => trivial⟩

theorem only_verifyMatchesTarget (input : Path) (plan : TargetPlan) :
    (verifyMatchesTarget input plan).Only Reads :=
  (only_verifyBackup input).bind fun _ => only_ite trivial trivial

theorem only_preflight (pid : Nat) (target : ResolvedTenant) (input safetyBackup : Path)
    (confirmDrop : Option String) :
    (preflight pid target input safetyBackup confirmDrop).Only fun q => ¬ Changes q := by
  unfold preflight
  refine (only_done _).bind fun plan => only_ite trivial ?_
  have hinput := (only_verifyMatchesTarget input plan).mono fun _ => Reads.not_changes
  refine hinput.bind fun manifest => ?_
  refine only_ite trivial (only_ite trivial ?_)
  refine (only_orElse (only_createBackup pid target safetyBackup)).bind fun _ => ?_
  exact hinput.bind fun _ => only_ite trivial trivial

/-- What comes after a preflight begins with the reset. -/
theorem until_restore (pid : Nat) (target : ResolvedTenant) (input safetyBackup : Path)
    (confirmDrop : Option String) :
    (restore pid target input safetyBackup confirmDrop).Until (fun q => ¬ Changes q) IsReset :=
  (only_preflight pid target input safetyBackup confirmDrop).until.bind fun _ => Or.inl trivial

/-- A command asks nothing that changes the database, until it asks for the reset. -/
theorem until_run (pid : Nat) (describe : BrokerError → String) (tenancy : Option Tenancy)
    (cmd : RecoveryCommand) :
    (run pid describe tenancy cmd).Until (fun q => ¬ Changes q) IsReset := by
  cases cmd with
  | verify input =>
      have hinput := (only_verifyBackup input).mono fun _ => Reads.not_changes
      exact (hinput.bind fun _ => only_done _).until
  | backup tenant output dryRun =>
      refine Only.until ((only_done _).bind fun target => (only_done _).bind fun plan => ?_)
      exact only_ite trivial ((only_createBackup pid target output).bind fun _ => only_done _)
  | restore tenant input safetyBackup confirmDrop dryRun =>
      refine (only_done _).until.bind fun target => (only_done _).until.bind fun plan => ?_
      split
      · trivial
      · have hinput := (only_verifyMatchesTarget input plan).mono fun _ => Reads.not_changes
        refine hinput.until.bind fun _ => ?_
        refine Or.inr ⟨fun h => h, fun found => ?_⟩
        dsimp only
        split
        · trivial
        · split
          · trivial
          · exact (until_restore pid target input safetyBackup confirmDrop).bind fun _ => trivial

/-! ### What a preflight has done -/

section

variable {s s' : RecoveryState δ β} {es : List (Σ q, Answer q)} {α γ : Type}

theorem not_run_fail {detail : String} {a : α}
    (h : Runs (RecoveryState.Answers world own) (fail detail) s es (.done (.ok a)) s') : False := by
  cases (run_ended h).2.1

theorem run_check {x : Except RecoveryError γ} {f : γ → Procedure α} {a : α}
    (h : Runs (RecoveryState.Answers world own) (Prog.done x >>= f) s es (.done (.ok a)) s') :
    ∃ c, x = .ok c ∧ Runs (RecoveryState.Answers world own) (f c) s es (.done (.ok a)) s' := by
  obtain ⟨es₁, es₂, c, s₁, rfl, hx, hf⟩ := run_bind_ok_inv h
  obtain ⟨rfl, hc, rfl⟩ := run_ended hx
  cases hc
  exact ⟨c, rfl, hf⟩

theorem run_orElse {p : Procedure α} {f : String → String} {a : α}
    (h : Runs (RecoveryState.Answers world own) (orElse p f) s es (.done (.ok a)) s') :
    Runs (RecoveryState.Answers world own) p s es (.done (.ok a)) s' := by
  obtain ⟨es₁, es₂, r, s₁, rfl, hp, hr⟩ := run_bind_ok_inv h
  obtain ⟨p₁, hp₁, hattempt⟩ := run_attempt hp
  cases p₁ with
  | ask q next => cases hattempt
  | done result =>
      cases hattempt
      cases r with
      | error e => exact (not_run_fail hr).elim
      | ok b =>
          obtain ⟨rfl, hb, rfl⟩ := run_ended hr
          cases hb
          simpa using hp₁

theorem run_verifyMatchesTarget {input : Path} {plan : TargetPlan} {m : BackupManifest}
    (h : Runs (RecoveryState.Answers world own) (verifyMatchesTarget input plan) s es
      (.done (.ok m)) s') :
    plan.matchesManifest m = true ∧
      Runs (RecoveryState.Answers world own) (verifyBackup input) s es (.done (.ok m)) s' := by
  obtain ⟨es₁, es₂, m', s₁, rfl, hverify, hrest⟩ := run_bind_ok_inv h
  split at hrest
  · exact (not_run_fail hrest).elim
  · rename_i hmatches
    obtain ⟨rfl, hm, rfl⟩ := run_ended hrest
    cases hm
    exact ⟨by simpa using hmatches, by simpa using hverify⟩

/-- The input of a restore, verified before and after the safety backup, in a run from `s` to
`s'`. -/
structure Checked (world : RecoveryWorld δ β) (own : Path → Prop) (pid : Nat)
    (target : ResolvedTenant) (input safetyBackup : Path) (confirmDrop : Option String)
    (m : BackupManifest) (s : RecoveryState δ β) (es : List (Σ q, Answer q))
    (s' : RecoveryState δ β) : Prop where
  /-- The target is the tenant's alone, the manifest is one of it, and the operator named it. -/
  plan : ∃ plan, TargetPlan.fromTarget target = .ok plan ∧ plan.tenantIsolated = true ∧
    plan.matchesManifest m = true ∧ confirmDrop = some plan.scope
  steps : ∃ t₁ t₂ t₃ s₁ s₂ safety, es = t₁ ++ t₂ ++ t₃ ∧
    Runs (RecoveryState.Answers world own) (verifyBackup input) s t₁ (.done (.ok m)) s₁ ∧
    Runs (RecoveryState.Answers world own) (createBackup pid target safetyBackup) s₁ t₂
      (.done (.ok safety)) s₂ ∧
    Runs (RecoveryState.Answers world own) (verifyBackup input) s₂ t₃ (.done (.ok m)) s'

theorem preflight_done {pid : Nat} {target : ResolvedTenant} {input safetyBackup : Path}
    {confirmDrop : Option String} {m : BackupManifest}
    (h : Runs (RecoveryState.Answers world own)
      (preflight pid target input safetyBackup confirmDrop) s es (.done (.ok m)) s') :
    Checked world own pid target input safetyBackup confirmDrop m s es s' := by
  unfold preflight at h
  -- Each check that fails ends the run, so a preflight that is done passed them all in turn.
  obtain ⟨plan, hplan, h⟩ := run_check h
  split at h
  · exact (not_run_fail h).elim
  rename_i hisolated
  obtain ⟨t₁, t, m₁, s₁, rfl, hfirst, h⟩ := run_bind_ok_inv h
  obtain ⟨_, hverified₁⟩ := run_verifyMatchesTarget hfirst
  split at h
  · exact (not_run_fail h).elim
  rename_i hconfirm
  split at h
  · exact (not_run_fail h).elim
  obtain ⟨t₂, t', safety, s₂, rfl, hbackup, h⟩ := run_bind_ok_inv h
  obtain ⟨t₃, t₄, m₂, s₃, rfl, hsecond, h⟩ := run_bind_ok_inv h
  obtain ⟨hmatches, hverified₂⟩ := run_verifyMatchesTarget hsecond
  split at h
  · exact (not_run_fail h).elim
  rename_i hsame
  obtain ⟨rfl, hm, rfl⟩ := run_ended h
  cases hm
  -- The second manifest is the one that was confirmed.
  have hm₂ : m₂ = m := by simpa using hsame
  subst hm₂
  exact
    { plan := ⟨plan, hplan, by simpa using hisolated, hmatches, by simpa using hconfirm⟩
      steps := ⟨t₁, t₂, t₃, s₁, s₂, safety, by simp, hverified₁, run_orElse hbackup, hverified₂⟩ }

end

/-! ### What a backup leaves behind -/

/-- A directory that `verify_backup` accepts, with what it finds. -/
def Verifies (world : RecoveryWorld δ β) (dir : BackupDir β) (m : BackupManifest) : Prop :=
  ∃ text b, dir.manifest = some text ∧ world.parse text = .ok m ∧ m.formatVersion = formatVersion ∧
    m.dumpFile = dumpFile ∧ dir.dump = some b ∧ world.size b ≠ 0 ∧
    m.dumpBytes = world.size b ∧ m.dumpSha256 = world.sha256 b

/-- A directory that verifies, whose dump is the last export of the database. -/
def Published (world : RecoveryWorld δ β) (output : Path) (m : BackupManifest)
    (s : RecoveryState δ β) : Prop :=
  ∃ dir live b, s.dirs output = some dir ∧ Verifies world dir m ∧ s.exported = some (live, b) ∧
    world.exports live b ∧ dir.dump = some b

/-- An output as it was, or one that verifies. -/
def Intact (world : RecoveryWorld δ β) (output : Path) (s t : RecoveryState δ β) : Prop :=
  t.dirs output = s.dirs output ∨ ∃ dir m, t.dirs output = some dir ∧ Verifies world dir m

section

variable {s t u : RecoveryState δ β} {α γ : Type} {mid : RecoveryState δ β → Prop}
  {post : Except RecoveryError γ → RecoveryState δ β → Prop}

theorem others_refl (s : RecoveryState δ β) : RecoveryState.Others own s s :=
  ⟨fun _ _ => rfl, rfl⟩

theorem others_trans (h : RecoveryState.Others own s t) (h' : RecoveryState.Others own t u) :
    RecoveryState.Others own s u :=
  ⟨fun p hp => (h'.1 p hp).trans (h.1 p hp), h'.2.trans h.2⟩

/-- A request that only reads: meanwhile others may have done something. -/
theorem others_of_read {q : Request} {r : Answer q}
    (h : RecoveryState.Answers world own s q r t)
    (hread : ∀ s₁, RecoveryState.Effect world s q r s₁ → s₁ = s) :
    RecoveryState.Others own s t ∧ RecoveryState.Effect world s q r s := by
  obtain ⟨s₁, heffect, hothers⟩ := h
  have hs₁ := hread s₁ heffect
  subst hs₁
  exact ⟨hothers, heffect⟩

theorem cast_cast_symm {A B : Type} (h : A = B) (x : B) : h ▸ h.symm ▸ x = x := by
  subst h
  rfl

/-- A request that may fail, and what comes after it. -/
theorem always_ask_bind {q : Request} {h : Answer q = Except RecoveryError α}
    {f : α → Procedure γ} (hmid : mid s)
    (hok : ∀ a t, RecoveryState.Answers world own s q (h.symm ▸ .ok a) t →
      Always (RecoveryState.Answers world own) mid post (f a) t)
    (herr : ∀ e r t, RecoveryState.Answers world own s q r t → mid t ∧ post (.error e) t) :
    Always (RecoveryState.Answers world own) mid post (ask q h >>= f) s := by
  refine ⟨hmid, fun r t hans => ?_⟩
  obtain ⟨x, rfl⟩ : ∃ x : Except RecoveryError α, r = h.symm ▸ x :=
    ⟨h ▸ r, (cast_cast_symm h.symm r).symm⟩
  dsimp only
  rw [cast_cast_symm h x]
  cases x with
  | ok a => exact hok a t hans
  | error e => exact herr e _ t hans

theorem always_askOr_bind {before : String} {q : Request} {h : Answer q = Except RecoveryError α}
    {f : α → Procedure γ} (hmid : mid s)
    (hok : ∀ a t, RecoveryState.Answers world own s q (h.symm ▸ .ok a) t →
      Always (RecoveryState.Answers world own) mid post (f a) t)
    (herr : ∀ e r t, RecoveryState.Answers world own s q r t → mid t ∧ post (.error e) t) :
    Always (RecoveryState.Answers world own) mid post (askOr before q h >>= f) s := by
  refine ⟨hmid, fun r t hans => ?_⟩
  obtain ⟨x, rfl⟩ : ∃ x : Except RecoveryError α, r = h.symm ▸ x :=
    ⟨h ▸ r, (cast_cast_symm h.symm r).symm⟩
  dsimp only
  rw [cast_cast_symm h x]
  cases x with
  | ok a => exact hok a t hans
  | error e => exact herr (before ++ e) _ t hans

/-- The hash of a dump that nobody else writes, and what comes after it. -/
theorem always_hashFile_bind {dir : Path} (hown : own dir) {f : Nat × String → Procedure γ}
    (hmid : ∀ t, RecoveryState.Others own s t → mid t)
    (hok : ∀ b t, RecoveryState.Others own s t →
      (∃ d, s.dirs dir = some d ∧ d.dump = some b) →
      Always (RecoveryState.Answers world own) mid post (f (world.size b, world.sha256 b)) t)
    (herr : ∀ e t, RecoveryState.Others own s t → post (.error e) t) :
    Always (RecoveryState.Answers world own) mid post (hashFile dir >>= f) s := by
  have hopened : ∀ t, RecoveryState.Others own s t →
      Always (RecoveryState.Answers world own) mid post
        ((ask (.hashDump dir) rfl : Procedure (Nat × String)) >>= f) t := by
    intro t ht
    refine always_ask_bind (hmid t ht) (fun x u hans => ?_) fun e r u hans => ?_
    · obtain ⟨hothers, _, hread⟩ := others_of_read hans fun _ h => h.1
      obtain ⟨d, b, hd, hb, rfl⟩ := hread x rfl
      exact hok b u (others_trans ht hothers) ⟨d, (ht.1 dir hown) ▸ hd, hb⟩
    · have hu := others_trans ht (others_of_read hans fun _ h => h.1).1
      exact ⟨hmid u hu, herr e u hu⟩
  unfold hashFile
  rw [bind_bind]
  exact always_askOr_bind (hmid s (others_refl s))
    (fun _ t hans => hopened t (others_of_read hans fun _ h => h).1) fun e r t hans =>
      have ht := (others_of_read hans fun _ h => h).1
      ⟨hmid t ht, herr e t ht⟩

end

/-- `verify_backup` of a directory that nobody else writes leaves it as it is, and what it accepts
verifies. -/
theorem always_verifyBackup {input : Path} (hown : own input) (s : RecoveryState δ β) :
    Always (RecoveryState.Answers world own) (RecoveryState.Others own s)
      (fun r _ => ∀ m, r = .ok m → ∃ dir, s.dirs input = some dir ∧ Verifies world dir m)
      (verifyBackup input) s := by
  have hread : ∀ {q : Request} {r : Answer q} {t u : RecoveryState δ β},
      RecoveryState.Others own s t → RecoveryState.Answers world own t q r u →
      (∀ s₁, RecoveryState.Effect world t q r s₁ → s₁ = t) → RecoveryState.Others own s u :=
    fun ht hans h => others_trans ht (others_of_read hans h).1
  refine ⟨others_refl s, fun isDir t₁ hans₁ => ?_⟩
  have ht₁ := hread (others_refl s) hans₁ fun _ h => h
  dsimp only
  split
  · exact ⟨ht₁, fun m hm => (by cases hm)⟩
  refine always_askOr_bind ht₁ (fun _ t₂ hans₂ => ?_) fun e r t hans =>
    ⟨hread ht₁ hans fun _ h => h, fun m hm => (by cases hm)⟩
  have ht₂ := hread ht₁ hans₂ fun _ h => h
  refine always_askOr_bind ht₂ (fun manifest t₃ hans₃ => ?_) fun e r t hans =>
    ⟨hread ht₂ hans fun _ h => h.1, fun m hm => (by cases hm)⟩
  have ht₃ := hread ht₂ hans₃ fun _ h => h.1
  obtain ⟨dir, text, hdir, htext, hparse⟩ := (others_of_read hans₃ fun _ h => h.1).2.2 manifest rfl
  split
  · exact ⟨ht₃, fun m hm => (by cases hm)⟩
  rename_i hformat
  split
  · exact ⟨ht₃, fun m hm => (by cases hm)⟩
  rename_i hfile
  refine always_hashFile_bind hown (fun t ht => others_trans ht₃ ht) (fun b t ht hb => ?_)
    fun e t _ m hm => (by cases hm)
  have hmid := others_trans ht₃ ht
  dsimp only
  split
  · exact ⟨hmid, fun m hm => (by cases hm)⟩
  rename_i hsize
  split
  · exact ⟨hmid, fun m hm => (by cases hm)⟩
  rename_i hmismatch
  refine ⟨hmid, fun m hm => ?_⟩
  cases hm
  obtain ⟨d, hd, hdump⟩ := hb
  -- the directory is the same at every request
  have hsame : dir = d := by
    have h₂ := (ht₂.1 input hown).symm.trans hdir
    exact Option.some.inj (h₂.symm.trans ((ht₃.1 input hown).symm.trans hd))
  subst hsame
  push Not at hformat hfile hmismatch
  exact ⟨dir, (ht₂.1 input hown).symm.trans hdir, text, b, htext, hparse, hformat, hfile, hdump,
    hsize, hmismatch.1.symm, hmismatch.2.symm⟩

/-- A staging directory is not the output. -/
theorem stagingPath_ne {pid : Nat} {output staging : Path}
    (h : stagingPath pid output = .ok staging) : staging ≠ output := by
  unfold stagingPath at h
  split at h
  · cases h
  rename_i name hname
  cases h
  intro heq
  have hlast : output.getLast? = some (.normal (name ++ ".partial-" ++ toString pid)) := by
    rw [← heq]
    simp
  have hname' : fileName output = some (name ++ ".partial-" ++ toString pid) := by
    unfold fileName
    rw [hlast]
  have hlen := congrArg String.length (Option.some.inj (hname.symm.trans hname'))
  simp only [String.length_append] at hlen
  have hdot : ".partial-".length = 9 := by decide
  omega

/-- The staging directory holds the last export of the database, and the output is as it was. -/
def Filled (world : RecoveryWorld δ β) (staging output : Path) (s t : RecoveryState δ β) : Prop :=
  t.dirs output = s.dirs output ∧ ∃ live b, t.exported = some (live, b) ∧ world.exports live b ∧
    ∀ dir, t.dirs staging = some dir → dir.dump = some b

theorem filled_of_others {staging output : Path} {s t u : RecoveryState δ β}
    (hstaging : own staging) (houtput : own output) (h : Filled world staging output s t)
    (hothers : RecoveryState.Others own t u) : Filled world staging output s u := by
  obtain ⟨hout, live, b, hexported, hexports, hdump⟩ := h
  exact ⟨(hothers.1 output houtput).trans hout, live, b, hothers.2.trans hexported, hexports,
    fun dir hdir => hdump dir ((hothers.1 staging hstaging).symm.trans hdir)⟩

section

variable {s t u : RecoveryState δ β} {p q : Path}

@[simp] theorem put_same (s : RecoveryState δ β) (p : Path) (dir : Option (BackupDir β)) :
    (s.put p dir).dirs p = dir := by simp [RecoveryState.put]

theorem put_ne (h : q ≠ p) (dir : Option (BackupDir β)) : (s.put p dir).dirs q = s.dirs q := by
  simp [RecoveryState.put, h]

theorem edit_ne (h : q ≠ p) (f : BackupDir β → BackupDir β) : (s.edit p f).dirs q = s.dirs q :=
  put_ne h _

end

/-- A request that writes no directory. -/
theorem dirs_of_quiet {q : Request} {r : Answer q} {s t : RecoveryState δ β} (hq : Quiet q)
    (h : RecoveryState.Effect world s q r t) : t.dirs = s.dirs := by
  cases q with
  | createDir _ | writeManifest _ _ | rename _ _ | removeDirAll _ | exportDump _ _ =>
      exact hq.elim
  | resetDatabase _ | importDump _ _ | rotateAccess _ =>
      obtain ⟨live, rfl⟩ := h
      rfl
  | readManifest _ | hashDump _ => rw [h.1]
  | isDir _ | fileExists _ | openManifest _ | openDump _ | createDirAll _ | clock | syncDump _
  | assertKeyguard _ => rw [h]

/-- A request that writes in a directory at most. -/
theorem output_of_answers {q : Request} {r : Answer q} {s t : RecoveryState δ β}
    {staging output : Path} (houtput : own output) (hne : staging ≠ output)
    (hq : match q with
      | .createDir p | .writeManifest p _ | .removeDirAll p | .exportDump _ p => p = staging
      | .rename _ _ => False
      | _ => True)
    (h : RecoveryState.Answers world own s q r t) : t.dirs output = s.dirs output := by
  obtain ⟨s₁, heffect, hothers⟩ := h
  -- The others do not write what is ours, so only the effect of the request counts.
  refine (hothers.1 output houtput).trans ?_
  -- What writes, writes in the staging directory.
  cases q with
  | createDir p =>
      subst hq
      rcases heffect with ⟨_, rfl⟩ | ⟨rfl, _⟩
      · exact put_ne hne.symm _
      · rfl
  | writeManifest p m =>
      subst hq
      obtain ⟨text, rfl⟩ := heffect
      exact edit_ne hne.symm _
  | removeDirAll p =>
      subst hq
      obtain ⟨dir, rfl⟩ := heffect
      exact put_ne hne.symm _
  | exportDump target p =>
      subst hq
      rcases heffect with ⟨b, _, rfl⟩ | ⟨⟨dump, rfl⟩, _⟩
      · exact edit_ne hne.symm _
      · exact edit_ne hne.symm _
  | rename src dst => exact hq.elim
  | _ => exact congrFun (dirs_of_quiet (by trivial) heffect) output

/-- An export fills the staging directory. -/
theorem filled_of_export {target : ResolvedTenant} {staging output : Path} {s t u : RecoveryState δ β}
    (hstaging : own staging) (houtput : own output) (hne : staging ≠ output)
    (ht : t.dirs output = s.dirs output)
    (h : RecoveryState.Answers world own t (.exportDump target staging) (.ok ()) u) :
    Filled world staging output s u := by
  obtain ⟨t₁, heffect, hothers⟩ := h
  rcases heffect with ⟨b, hexports, rfl⟩ | ⟨_, e, he⟩
  · have hout : (t.edit staging fun dir => { dir with dump := some b }).dirs output
        = s.dirs output := (edit_ne hne.symm _).trans ht
    have hdump : ∀ dir, (t.edit staging fun dir => { dir with dump := some b }).dirs staging
        = some dir → dir.dump = some b := by
      intro dir hdir
      have hdir' : (t.dirs staging).map (fun dir => { dir with dump := some b }) = some dir := by
        simpa [RecoveryState.edit] using hdir
      obtain ⟨d, _, rfl⟩ := Option.map_eq_some_iff.mp hdir'
      rfl
    exact ⟨(hothers.1 output houtput).trans hout, t.live, b, hothers.2, hexports,
      fun dir hdir => hdump dir ((hothers.1 staging hstaging).symm.trans hdir)⟩
  · cases he

/-- The manifest is written beside the dump. -/
theorem filled_of_manifest {m : BackupManifest} {r : Except RecoveryError Unit}
    {staging output : Path} {s t u : RecoveryState δ β} (hstaging : own staging)
    (houtput : own output) (hne : staging ≠ output) (ht : Filled world staging output s t)
    (h : RecoveryState.Answers world own t (.writeManifest staging m) r u) :
    Filled world staging output s u := by
  obtain ⟨t₁, ⟨text, rfl⟩, hothers⟩ := h
  obtain ⟨hout, live, b, hexported, hexports, hdump⟩ := ht
  refine filled_of_others hstaging houtput ⟨(edit_ne hne.symm _).trans hout, live, b, hexported,
    hexports, fun dir hdir => ?_⟩ hothers
  have hdir' : (t.dirs staging).map (fun dir => { dir with manifest := text }) = some dir := by
    simpa [RecoveryState.edit] using hdir
  obtain ⟨d, hd, rfl⟩ := Option.map_eq_some_iff.mp hdir'
  exact hdump d hd

/-- The rename publishes what was verified, or it does nothing. -/
theorem published_of_rename {m : BackupManifest} {r : Except RecoveryError Unit}
    {staging output : Path} {s t u : RecoveryState δ β} {dir : BackupDir β}
    (houtput : own output) (ht : Filled world staging output s t)
    (hdir : t.dirs staging = some dir) (hverifies : Verifies world dir m)
    (h : RecoveryState.Answers world own t (.rename staging output) r u) :
    Published world output m u ∨ (u.dirs output = s.dirs output ∧ ∃ e, r = .error e) := by
  obtain ⟨t₁, heffect, hothers⟩ := h
  obtain ⟨hout, live, b, hexported, hexports, hdump⟩ := ht
  rcases heffect with ⟨d, hd, rfl⟩ | ⟨rfl, herr⟩
  · cases hdir.symm.trans hd
    refine Or.inl ⟨dir, live, b, (hothers.1 output houtput).trans (put_same _ _ _), hverifies,
      hothers.2.trans hexported, hexports, hdump dir hdir⟩
  · exact Or.inr ⟨(hothers.1 output houtput).trans hout, herr⟩

theorem intact_of_published {m : BackupManifest} {output : Path} {s t : RecoveryState δ β}
    (h : Published world output m t) : Intact world output s t := by
  obtain ⟨dir, _, _, hdir, hverifies, _⟩ := h
  exact Or.inr ⟨dir, m, hdir, hverifies⟩

theorem Intact.of_same {output : Path} {s t u : RecoveryState δ β} (h : Intact world output s t)
    (hsame : u.dirs output = t.dirs output) : Intact world output s u := by
  unfold Intact at h ⊢
  rw [hsame]
  exact h

/-- How `create_backup` ends, and the part of it that fills and publishes. -/
def BackupEnd (world : RecoveryWorld δ β) (output : Path) :
    Except RecoveryError BackupManifest → RecoveryState δ β → Prop
  | .ok m, t => Published world output m t
  | .error _, _ => True

/-- A staging directory that is filled, verified and published. -/
theorem always_fillAndPublish (target : ResolvedTenant) {staging output : Path}
    (hstaging : own staging) (houtput : own output) (hne : staging ≠ output)
    {s t : RecoveryState δ β} (ht : t.dirs output = s.dirs output) :
    Always (RecoveryState.Answers world own) (Intact world output s) (BackupEnd world output)
      (fillAndPublish target staging output) t := by
  unfold fillAndPublish
  cases TargetPlan.fromTarget target with
  | error e => exact ⟨Or.inl ht, trivial⟩
  | ok plan =>
      rw [bind_ok]
      refine always_ask_bind (Or.inl ht) (fun _ t₁ hans₁ => ?_) fun e r u hans =>
        ⟨Or.inl ((output_of_answers houtput hne rfl hans).trans ht), trivial⟩
      -- The dump, its hash, the manifest: each step keeps what the staging directory has so far.
      have ht₁ := filled_of_export hstaging houtput hne ht hans₁
      -- Until the rename the output is as it was.
      have hmid : ∀ {u}, Filled world staging output s u → Intact world output s u :=
        fun h => Or.inl h.1
      refine always_hashFile_bind hstaging
        (fun u hu => hmid (filled_of_others hstaging houtput ht₁ hu)) (fun b t₂ hothers _ => ?_)
        fun e u _ => trivial
      have ht₂ := filled_of_others hstaging houtput ht₁ hothers
      dsimp only
      split
      · exact ⟨hmid ht₂, trivial⟩
      have hread : ∀ {q : Request} {r : Answer q} {t u : RecoveryState δ β},
          Filled world staging output s t → RecoveryState.Answers world own t q r u →
          (∀ s₁, RecoveryState.Effect world t q r s₁ → s₁ = t) → Filled world staging output s u :=
        fun ht hans h => filled_of_others hstaging houtput ht (others_of_read hans h).1
      refine always_askOr_bind (hmid ht₂) (fun created t₃ hans₃ => ?_) fun e r u hans =>
        ⟨hmid (hread ht₂ hans fun _ h => h), trivial⟩
      have ht₃ := hread ht₂ hans₃ fun _ h => h
      refine always_ask_bind (hmid ht₃) (fun _ t₄ hans₄ => ?_) fun e r u hans =>
        ⟨hmid (filled_of_manifest hstaging houtput hne ht₃ hans), trivial⟩
      have ht₄ := filled_of_manifest hstaging houtput hne ht₃ hans₄
      refine always_ask_bind (hmid ht₄) (fun _ t₅ hans₅ => ?_) fun e r u hans =>
        ⟨hmid (hread ht₄ hans fun _ h => h), trivial⟩
      have ht₅ := hread ht₄ hans₅ fun _ h => h
      -- What is verified is the directory that is renamed.
      have hverify : Always (RecoveryState.Answers world own) (Intact world output s)
          (fun r u => RecoveryState.Others own t₅ u ∧ ∀ m, r = .ok m →
            ∃ dir, t₅.dirs staging = some dir ∧ Verifies world dir m)
          (verifyBackup staging) t₅ :=
        (always_verifyBackup hstaging t₅).mono
          (fun u hu => hmid (filled_of_others hstaging houtput ht₅ hu)) fun r u hu h => ⟨hu, h⟩
      refine hverify.bind (fun m t₆ hmid₆ hpost => ?_) fun e u _ _ => trivial
      obtain ⟨dir, hdir, hverifies⟩ := hpost.2 m rfl
      have ht₆ := filled_of_others hstaging houtput ht₅ hpost.1
      have hdir₆ := (hpost.1.1 staging hstaging).trans hdir
      -- The rename publishes it, or fails and leaves the output.
      refine always_askOr_bind hmid₆ (fun _ u hans => ?_) fun e r u hans => ?_
      · have hpublished := (published_of_rename houtput ht₆ hdir₆ hverifies hans).resolve_right
          fun h => (by obtain ⟨_, e, he⟩ := h; cases he)
        exact ⟨intact_of_published hpublished, hpublished⟩
      · rcases published_of_rename houtput ht₆ hdir₆ hverifies hans with h | h
        · exact ⟨intact_of_published h, trivial⟩
        · exact ⟨Or.inl h.1, trivial⟩

/-- At every moment of a backup the output is as it was or it verifies, and once the backup is
made it is published. -/
theorem always_createBackup {pid : Nat} {output : Path}
    (hown : ∀ p, RecoveryState.Own pid output p → own p) (target : ResolvedTenant)
    {s t : RecoveryState δ β} (ht : t.dirs output = s.dirs output) :
    Always (RecoveryState.Answers world own) (Intact world output s) (BackupEnd world output)
      (createBackup pid target output) t := by
  have houtput : own output := hown output (Or.inl rfl)
  -- A request that reads leaves the output.
  have hsame : ∀ {q : Request} {r : Answer q} {t u : RecoveryState δ β},
      t.dirs output = s.dirs output →
      RecoveryState.Answers world own t q r u →
      (∀ s₁, RecoveryState.Effect world t q r s₁ → s₁ = t) → u.dirs output = s.dirs output :=
    fun ht hans h => ((others_of_read hans h).1.1 output houtput).trans ht
  refine ⟨Or.inl ht, fun found t₁ hans₁ => ?_⟩
  have ht₁ := hsame ht hans₁ fun _ h => h
  dsimp only
  split
  · exact ⟨Or.inl ht₁, trivial⟩
  refine always_askOr_bind (Or.inl ht₁) (fun _ t₂ hans₂ => ?_) fun e r u hans =>
    ⟨Or.inl (hsame ht₁ hans fun _ h => h), trivial⟩
  have ht₂ := hsame ht₁ hans₂ fun _ h => h
  cases hpath : stagingPath pid output with
  | error e => exact ⟨Or.inl ht₂, trivial⟩
  | ok staging =>
      have hstaging : own staging := hown staging (Or.inr hpath)
      have hne := stagingPath_ne hpath
      rw [bind_ok]
      refine ⟨Or.inl ht₂, fun found t₃ hans₃ => ?_⟩
      have ht₃ := hsame ht₂ hans₃ fun _ h => h
      dsimp only
      split
      · exact ⟨Or.inl ht₃, trivial⟩
      refine always_ask_bind (Or.inl ht₃) (fun _ t₄ hans₄ => ?_) fun e r u hans =>
        ⟨Or.inl ((output_of_answers houtput hne rfl hans).trans ht₃), trivial⟩
      have ht₄ := (output_of_answers houtput hne rfl hans₄).trans ht₃
      -- The staging directory is not the output, so filling it is safe.
      have hfilled : Always (RecoveryState.Answers world own) (Intact world output s)
          (BackupEnd world output) (fillAndPublish target staging output) t₄ :=
        always_fillAndPublish target hstaging houtput hne ht₄
      have hattempt : Always (RecoveryState.Answers world own)
          (Intact world output s)
          (fun (x : Except RecoveryError (Except RecoveryError BackupManifest)) u =>
            ∀ r, x = .ok r → BackupEnd world output r u)
          (fillAndPublish target staging output).attempt t₄ :=
        hfilled.attempt fun r u _ hpost r' hr' => Except.ok.inj hr' ▸ hpost
      -- What failed is cleaned up, which writes in the staging directory only.
      refine hattempt.bind (fun r t₅ ht₅ hpost => ?_) fun e u _ _ => trivial
      cases r with
      | ok m => exact ⟨ht₅, hpost _ rfl⟩
      | error e =>
          refine ⟨ht₅, fun found t₆ hans₆ => ?_⟩
          have ht₆ := ht₅.of_same (output_of_answers houtput hne trivial hans₆)
          dsimp only
          split
          · exact ⟨ht₆, trivial⟩
          · refine ⟨ht₆, fun r u hans => ?_⟩
            exact ⟨ht₆.of_same (output_of_answers houtput hne rfl hans), trivial⟩

/-! ### The guard of the reset -/

/-- The output of a command. -/
def RecoveryCommand.output : RecoveryCommand → Option Path
  | .backup _ output _ => some output
  | .verify _ => none
  | .restore _ _ safetyBackup _ _ => some safetyBackup

theorem effect_of_reads {q : Request} {r : Answer q} {s t : RecoveryState δ β} (hq : Reads q)
    (h : RecoveryState.Effect world s q r t) : t = s := by
  cases q with
  | isDir _ | fileExists _ | openManifest _ | openDump _ => exact h
  | readManifest _ | hashDump _ => exact h.1
  | _ => exact hq.elim

/-- A request that does not change the database. -/
theorem live_of_effect {q : Request} {r : Answer q} {s t : RecoveryState δ β} (hq : ¬ Changes q)
    (h : RecoveryState.Effect world s q r t) : t.live = s.live := by
  cases q with
  | resetDatabase _ | importDump _ _ | rotateAccess _ => exact absurd trivial hq
  | isDir _ | fileExists _ | openManifest _ | openDump _ | createDirAll _ | clock | syncDump _
  | assertKeyguard _ => rw [h]
  | readManifest _ | hashDump _ => rw [h.1]
  | createDir p => rcases h with ⟨_, rfl⟩ | ⟨rfl, _⟩ <;> rfl
  | writeManifest p m =>
      obtain ⟨text, rfl⟩ := h
      rfl
  | rename src dst => rcases h with ⟨dir, _, rfl⟩ | ⟨rfl, _⟩ <;> rfl
  | removeDirAll p =>
      obtain ⟨dir, rfl⟩ := h
      rfl
  | exportDump target p => rcases h with ⟨b, _, rfl⟩ | ⟨⟨dump, rfl⟩, _⟩ <;> rfl

/-- What only reads leaves the own directories to themselves. -/
theorem others_of_run {γ : Type} {p p' : Procedure γ} {s s' : RecoveryState δ β}
    {es : List (Σ q, Answer q)} (h : p.Only Reads)
    (hrun : Runs (RecoveryState.Answers world own) p s es p' s') :
    RecoveryState.Others own s s' := by
  have hall : ∀ t (p : Procedure γ), p.Only Reads → RecoveryState.Others own s t →
      Always (RecoveryState.Answers world own) (RecoveryState.Others own s) (fun _ _ => True) p t := by
    intro t p hp
    induction p generalizing t with
    | done result => exact fun ht => ⟨ht, trivial⟩
    | ask q next ih =>
        refine fun ht => ⟨ht, fun r u hans => ih r u (hp.2 r) ?_⟩
        exact others_trans ht (others_of_read hans fun _ => effect_of_reads hp.1).1
  exact ((hall s p h (others_refl s)).of_run hrun).holds

/-- What writes no directory leaves an own one as it is. -/
theorem always_quiet {γ : Type} {output : Path} (houtput : own output) {p : Procedure γ}
    (h : p.Only Quiet) {s t : RecoveryState δ β} (ht : Intact world output s t) :
    Always (RecoveryState.Answers world own) (Intact world output s)
      (fun _ u => u.dirs output = t.dirs output) p t := by
  have hall : ∀ u (p : Procedure γ), p.Only Quiet → u.dirs output = t.dirs output →
      Always (RecoveryState.Answers world own) (Intact world output s)
        (fun _ u => u.dirs output = t.dirs output) p u := by
    intro u p hp
    induction p generalizing u with
    | done result => exact fun hu => ⟨ht.of_same hu, hu⟩
    | ask q next ih =>
        refine fun hu => ⟨ht.of_same hu, fun r v hans => ih r v (hp.2 r) ?_⟩
        obtain ⟨u₁, heffect, hothers⟩ := hans
        have hsame := congrFun (dirs_of_quiet hp.1 heffect) output
        exact ((hothers.1 output houtput).trans hsame).trans hu
  exact hall t p h rfl

/-- At every moment of a restore the safety backup is as it was, or it verifies. -/
theorem always_restore {pid : Nat} {safetyBackup : Path}
    (hown : ∀ p, RecoveryState.Own pid safetyBackup p → own p) (target : ResolvedTenant)
    (input : Path) (confirmDrop : Option String) {s t : RecoveryState δ β}
    (ht : t.dirs safetyBackup = s.dirs safetyBackup) :
    Always (RecoveryState.Answers world own) (Intact world safetyBackup s) (fun _ _ => True)
      (restore pid target input safetyBackup confirmDrop) t := by
  have houtput : own safetyBackup := hown safetyBackup (Or.inl rfl)
  have hinput : ∀ plan, (verifyMatchesTarget input plan).Only Quiet := fun plan =>
    (only_verifyMatchesTarget input plan).mono fun _ => Reads.quiet
  -- Before the drop, only the safety backup writes.
  have hpreflight : Always (RecoveryState.Answers world own) (Intact world safetyBackup s)
      (fun _ _ => True) (preflight pid target input safetyBackup confirmDrop) t := by
    unfold preflight
    cases TargetPlan.fromTarget target with
    | error e => exact ⟨Or.inl ht, trivial⟩
    | ok plan =>
        rw [bind_ok]
        split
        · exact ⟨Or.inl ht, trivial⟩
        refine (always_quiet houtput (hinput plan) (Or.inl ht)).bind
          (fun manifest t₁ ht₁ hsame => ?_) fun _ _ _ _ => trivial
        split
        · exact ⟨ht₁, trivial⟩
        split
        · exact ⟨ht₁, trivial⟩
        have hbackup : Always (RecoveryState.Answers world own) (Intact world safetyBackup s)
            (fun _ _ => True) (createBackup pid target safetyBackup).attempt t₁ :=
          (always_createBackup hown target (hsame.trans ht)).attempt fun _ _ _ _ => trivial
        have horElse : Always (RecoveryState.Answers world own) (Intact world safetyBackup s)
            (fun _ _ => True) (orElse (createBackup pid target safetyBackup)
              ("safety backup failed; live target was not changed: " ++ ·)) t₁ := by
          refine hbackup.bind (fun r t₂ ht₂ _ => ?_) fun _ _ _ _ => trivial
          cases r with
          | ok m => exact ⟨ht₂, trivial⟩
          | error e => exact ⟨ht₂, trivial⟩
        refine horElse.bind (fun _ t₂ ht₂ _ => ?_) fun _ _ _ _ => trivial
        refine (always_quiet houtput (hinput plan) ht₂).bind
          (fun preDrop t₃ ht₃ _ => ?_) fun _ _ _ _ => trivial
        split
        · exact ⟨ht₃, trivial⟩
        · exact ⟨ht₃, trivial⟩
  -- After it, nothing writes in a directory.
  have hdrop : (dropAndImport target input safetyBackup).Only Quiet :=
    (only_askOr trivial).bind fun _ => (only_askOr trivial).bind fun _ =>
      (only_askOr trivial).bind fun _ => only_askOr trivial
  refine hpreflight.bind (fun m u hu _ => ?_) fun _ _ _ _ => trivial
  exact (always_quiet houtput hdrop hu).bind (fun _ v hv _ => ⟨hv, trivial⟩) fun _ _ _ _ => trivial

/-- At every moment of a command its output is as it was, or it verifies. -/
theorem always_run {pid : Nat} {cmd : RecoveryCommand} {output : Path}
    (houtput : cmd.output = some output) (hown : ∀ p, RecoveryState.Own pid output p → own p)
    (describe : BrokerError → String) (tenancy : Option Tenancy) (s : RecoveryState δ β) :
    Always (RecoveryState.Answers world own) (Intact world output s) (fun _ _ => True)
      (run pid describe tenancy cmd) s := by
  have hs : Intact world output s s := Or.inl rfl
  cases cmd with
  -- A check has no output.
  | verify input => cases houtput
  | backup tenant output' dryRun =>
      cases houtput
      dsimp only [run]
      cases targetOf describe tenancy "backup" tenant with
      | error e => exact ⟨hs, trivial⟩
      | ok target =>
          rw [bind_ok]
          cases TargetPlan.fromTarget target with
          | error e => exact ⟨hs, trivial⟩
          | ok plan =>
              rw [bind_ok]
              split
              · exact ⟨hs, trivial⟩
              · exact (always_createBackup hown target rfl).bind (fun m t ht _ => ⟨ht, trivial⟩)
                  fun _ _ _ _ => trivial
  | restore tenant input safetyBackup confirmDrop dryRun =>
      cases houtput
      have hsafety : own output := hown output (Or.inl rfl)
      dsimp only [run]
      cases targetOf describe tenancy "restore" tenant with
      | error e => exact ⟨hs, trivial⟩
      | ok target =>
          rw [bind_ok]
          cases TargetPlan.fromTarget target with
          | error e => exact ⟨hs, trivial⟩
          | ok plan =>
              rw [bind_ok]
              split
              · exact ⟨hs, trivial⟩
              -- The restore first reads its input, and looks whether the output is there.
              have hinput := (only_verifyMatchesTarget input plan).mono fun _ => Reads.quiet
              refine (always_quiet hsafety hinput hs).bind (fun _ t ht hsame => ?_)
                fun _ _ _ _ => trivial
              refine ⟨ht, fun found u hans => ?_⟩
              have hu := ((others_of_read hans fun _ h => h).1.1 output hsafety).trans hsame
              dsimp only
              split
              · exact ⟨Or.inl hu, trivial⟩
              split
              · exact ⟨Or.inl hu, trivial⟩
              · exact (always_restore hown target input confirmDrop hu).bind
                  (fun m v hv _ => ⟨hv, trivial⟩) fun _ _ _ _ => trivial

/-- The part of a restore that changes the database begins with the reset, and it is reached
through the preflight. -/
theorem restore_reset {pid : Nat} {target target' : ResolvedTenant} {input safetyBackup : Path}
    {confirmDrop : Option String} {s s' : RecoveryState δ β} {es : List (Σ q, Answer q)}
    {next : Answer (.resetDatabase target') → Procedure BackupManifest}
    (h : Runs (RecoveryState.Answers world own) (restore pid target input safetyBackup confirmDrop)
      s es (.ask (.resetDatabase target') next) s') :
    target' = target ∧ ∃ m, Runs (RecoveryState.Answers world own)
      (preflight pid target input safetyBackup confirmDrop) s es (.done (.ok m)) s' := by
  obtain ⟨es₁, es₂, m, s₁, rfl, hpreflight, hdrop⟩ :=
    (only_preflight pid target input safetyBackup confirmDrop).run_bind_ask (by exact fun h => h trivial) h
  -- nothing after the first reset is a reset
  have hlater : ∀ r : Except RecoveryError Unit, ((Prog.done (r.mapError
      (("restore target reset failed; safety backup is at " ++ display safetyBackup ++ ": ") ++ ·))
        : Procedure Unit) >>= fun _ => do
      askOr ("restore import failed after target reset; DO NOT SERVE this target; "
        ++ "safety backup is at " ++ display safetyBackup ++ ": ") (.importDump target input) rfl
      askOr ("restore imported but signing-key remediation failed; DO NOT SERVE this target; "
        ++ "safety backup is at " ++ display safetyBackup ++ ": ") (.rotateAccess target) rfl
      askOr ("restore imported but failed the signing-key guard; DO NOT SERVE this target; "
        ++ "safety backup is at " ++ display safetyBackup ++ ": ")
        (.assertKeyguard target) rfl).Only fun q => ¬ IsReset q := fun r =>
    (only_done _).bind fun _ => (only_askOr fun h => h).bind fun _ =>
      (only_askOr fun h => h).bind fun _ => only_askOr fun h => h
  obtain ⟨rfl, hq, rfl⟩ : es₂ = [] ∧ Request.resetDatabase target' = .resetDatabase target ∧
      s' = s₁ :=
    run_ask_first (fun r => (hlater r).bind fun _ => only_done (.ok m)) (fun h => h trivial) hdrop
  cases hq
  exact ⟨rfl, m, by simpa using hpreflight⟩

/-- A command that asks for the reset is a restore that has gone through its preflight. -/
theorem run_reset {pid : Nat} {describe : BrokerError → String} {tenancy : Option Tenancy}
    {cmd : RecoveryCommand} {target : ResolvedTenant} {s s' : RecoveryState δ β}
    {es : List (Σ q, Answer q)} {next : Answer (.resetDatabase target) → Procedure String}
    (h : Runs (RecoveryState.Answers world own) (run pid describe tenancy cmd) s es
      (.ask (.resetDatabase target) next) s') :
    ∃ tenant input safetyBackup confirmDrop,
      cmd = .restore tenant input safetyBackup confirmDrop false ∧
      targetOf describe tenancy "restore" tenant = .ok target ∧
      ∃ m s₀ es₀ es₁, es = es₀ ++ es₁ ∧ RecoveryState.Others own s s₀ ∧
        Runs (RecoveryState.Answers world own) (preflight pid target input safetyBackup confirmDrop)
          s₀ es₁ (.done (.ok m)) s' := by
  have hreset : ¬ ¬ Changes (.resetDatabase target) := fun h => h trivial
  have hreads : ¬ Reads (.resetDatabase target) := fun h => h
  cases cmd with
  -- A check and a backup never ask for it.
  | verify input =>
      have honly : (run pid describe tenancy (.verify input)).Only Reads :=
        (only_verifyBackup input).bind fun _ => only_done _
      exact absurd (honly.of_run h).2.1 hreads
  | backup tenant output dryRun =>
      have honly : (run pid describe tenancy (.backup tenant output dryRun)).Only
          fun q => ¬ Changes q :=
        (only_done _).bind fun target => (only_done _).bind fun plan =>
          only_ite trivial ((only_createBackup pid target output).bind fun _ => only_done _)
      exact absurd (honly.of_run h).2.1 hreset
  | restore tenant input safetyBackup confirmDrop dryRun =>
      dsimp only [run] at h
      cases htarget : targetOf describe tenancy "restore" tenant with
      | error e =>
          rw [htarget] at h
          cases (run_ended h).2.1
      | ok target' =>
          rw [htarget, bind_ok] at h
          cases hplan : TargetPlan.fromTarget target' with
          | error e =>
              rw [hplan] at h
              cases (run_ended h).2.1
          | ok plan =>
              rw [hplan, bind_ok] at h
              split at h
              · cases (run_ended h).2.1
              -- The input is verified, the output is not there, and the run is not a dry one.
              obtain ⟨t₁, t₂, m₀, s₁, rfl, hverify, h⟩ :=
                (only_verifyMatchesTarget input plan).run_bind_ask hreads h
              have hs₁ := others_of_run (only_verifyMatchesTarget input plan) hverify
              rcases run_ask_inv h with ⟨_, hask, _⟩ | ⟨found, s₂, t₃, rfl, hans, hrest⟩
              · cases hask
              have hs₂ := others_trans hs₁ (others_of_read hans fun _ h => h).1
              split at hrest
              · cases (run_ended hrest).2.1
              split at hrest
              · cases (run_ended hrest).2.1
              rename_i hdry
              have hdry : dryRun = false := by simpa using hdry
              subst hdry
              rcases run_bind hrest with ⟨p₁, hp₁, hask⟩ | ⟨t₄, t₅, m, s₃, rfl, _, hend⟩
              · rcases bind_eq_ask hask.symm with ⟨next₁, rfl, _⟩ | ⟨m, rfl, hend⟩
                · -- The reset is the first request after the preflight.
                  obtain ⟨rfl, m, hpreflight⟩ := restore_reset hp₁
                  exact ⟨tenant, input, safetyBackup, confirmDrop, rfl, htarget, m, s₂,
                    t₁ ++ [⟨.fileExists safetyBackup, found⟩], t₃, by simp, hs₂, hpreflight⟩
                · cases hend
              · cases (run_ended hend).2.1

/-- A world without backups. -/
def noBackups : RecoveryWorld Unit Unit where
  parse := fun _ => .error ""
  size := fun _ => 0
  sha256 := fun _ => ""
  exports := fun _ _ => True

end Recovery

end Frust.Kernel
