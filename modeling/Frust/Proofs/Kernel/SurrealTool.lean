import Frust.Kernel.SurrealTool
import Frust.Proofs.Kernel.Recovery
import Frust.Proofs.Rust.Str

/-!
# `Frust.Proofs.Kernel.SurrealTool`: what an operator learns of a failed tool

A tool that failed is reported with what it printed, without the password and cut to a length
(`Reported`). That holds when the cut is between two characters, and when the password does not come
about again with the marks that stand for it and for the cut (`Withholds`, `reported_iff`). A cut in
the middle of a character is a panic, and a restore that has dropped its target ends without a word.
-/

set_option autoImplicit false

namespace Frust.Kernel

open Frust.Lib Frust.Lib.Prog Frust.Rust

namespace Recovery

/-! ### What is shown -/

/-- A text of the process. The mark on a character says whether the code has added it. -/
def plain (l : List Char) : List (Char × Bool) := l.map (·, false)

/-- A text that the code adds. -/
def added (s : String) : List (Char × Bool) := s.toList.map (·, true)

/-- The characters. -/
def textOf (m : List (Char × Bool)) : List Char := m.map Prod.fst

/-- The detail, cut at the password. -/
def markedDetail (ps : List (List Char)) : List (Char × Bool) :=
  (added redactedMark).intercalate (ps.map plain)

/-- What is shown of it: everything, or the characters that fill the first bytes. -/
inductive Shown : List (Char × Bool) → List (Char × Bool) → Prop
  | whole {m : List (Char × Bool)} (h : len (textOf m) ≤ maxDetail) : Shown m m
  | cut {a b : List (Char × Bool)} (hlong : maxDetail < len (textOf (a ++ b)))
      (h : len (textOf a) = maxDetail) : Shown (a ++ b) (a ++ added truncatedMark)

/-- The password stands there with a character that the code has added. -/
def TakesIn (pass : List Char) (m : List (Char × Bool)) : Prop :=
  ∃ x y z, m = x ++ y ++ z ∧ textOf y = pass ∧ ∃ c ∈ y, c.2 = true

/-- There is a password, something can be shown, and no mark brings the password back. -/
def Withholds (pass : String) (detail : List Char) : Prop :=
  pass ≠ "" ∧ ∃ ps m, Occurs.Cuts pass.toList detail ps ∧ Shown (markedDetail ps) m ∧
    ¬ TakesIn pass.toList m

@[simp] theorem textOf_plain (l : List Char) : textOf (plain l) = l := by
  rw [textOf, plain, List.map_map]
  exact List.map_id l

@[simp] theorem textOf_added (s : String) : textOf (added s) = s.toList := by
  rw [textOf, added, List.map_map]
  exact List.map_id s.toList

@[simp] theorem textOf_append (a b : List (Char × Bool)) : textOf (a ++ b) = textOf a ++ textOf b :=
  List.map_append

/-- Without the marks it is the detail with the password replaced. -/
theorem textOf_markedDetail (ps : List (List Char)) :
    textOf (markedDetail ps) = redactedMark.toList.intercalate ps := by
  induction ps with
  | nil => rfl
  | cons p ps ih =>
      cases ps with
      | nil =>
          show textOf ((added redactedMark).intercalate [plain p]) = _
          rw [List.intercalate_singleton, List.intercalate_singleton, textOf_plain]
      | cons q qs =>
          show textOf ((added redactedMark).intercalate (plain p :: plain q :: qs.map plain)) = _
          rw [List.intercalate_cons_cons, List.intercalate_cons_cons, ← ih, textOf_append,
            textOf_append, textOf_plain, textOf_added]
          rfl

/-- What is shown is the text that the code shows. -/
theorem shorten_eq_some_iff {m : List (Char × Bool)} {detail : List Char} :
    shorten (textOf m) = some detail ↔ ∃ m', Shown m m' ∧ textOf m' = detail := by
  rw [shorten]
  split
  · rename_i hlong
    have hle : maxDetail ≤ len (textOf m) := by omega
    rw [Option.map_eq_some_iff]
    constructor
    · rintro ⟨kept, hkept, rfl⟩
      obtain ⟨⟨rest, hrest⟩, hlen⟩ := (truncate_eq_some_iff hle).mp hkept
      obtain ⟨a, b, rfl, rfl, -⟩ := List.map_eq_append_iff.mp hrest.symm
      exact ⟨a ++ added truncatedMark, .cut hlong hlen, by rw [textOf_append, textOf_added]; rfl⟩
    · rintro ⟨m', hm', rfl⟩
      cases hm' with
      | whole h => omega
      | @cut a b _ h =>
          refine ⟨textOf a, (truncate_eq_some_iff hle).mpr ⟨⟨textOf b, ?_⟩, h⟩, ?_⟩
          · rw [textOf_append]
          · rw [textOf_append, textOf_added]
  · rename_i hshort
    rw [Option.some.injEq]
    constructor
    · rintro rfl
      exact ⟨m, .whole (by omega), rfl⟩
    · rintro ⟨m', hm', rfl⟩
      cases hm' with
      | whole => rfl
      | cut hlong => exact absurd hlong hshort

/-- What is shown has a bounded length. -/
theorem Shown.len_le {m m' : List (Char × Bool)} (h : Shown m m') :
    len (textOf m') ≤ maxDetail + truncatedMark.utf8ByteSize := by
  cases h with
  | whole h => omega
  | @cut a b _ h =>
      have hmark : len truncatedMark.toList = truncatedMark.utf8ByteSize := by decide
      rw [textOf_append, len_append, h, textOf_added, hmark]

/-- Something without added characters was there before the cut. -/
theorem Shown.infix_of_free {m m' y : List (Char × Bool)} (h : Shown m m') (hne : y ≠ [])
    (hfree : ∀ c ∈ added truncatedMark, c ∉ y) (hin : y <:+: m') : y <:+: m := by
  cases h with
  | whole => exact hin
  | @cut a b =>
      rw [← List.append_nil (added truncatedMark)] at hin
      rcases Occurs.infix_append_append hne hfree (by decide) hin with ha | hnil
      · exact ha.trans (List.prefix_append a b).isInfix
      · exact absurd (List.infix_nil.mp hnil) hne

/-! ### The password -/

/-- The password is not in what the process itself said between its places. -/
theorem not_infix_plain {pass detail : List Char} {ps : List (List Char)} (hne : pass ≠ [])
    (hcuts : Occurs.Cuts pass detail ps) {y : List (Char × Bool)} (hy : textOf y = pass) :
    ∀ p ∈ ps.map plain, ¬ y <:+: p := by
  intro p hp hin
  obtain ⟨q, hq, rfl⟩ := List.mem_map.mp hp
  have hmap : textOf y <:+: textOf (plain q) := hin.map Prod.fst
  rw [hy, textOf_plain] at hmap
  exact hcuts.not_isInfix hne q hq hmap

/-- Where the password stands in what is shown, it stands with something that was added. -/
theorem takesIn_of_isInfix {pass detail : List Char} {ps : List (List Char)}
    {m : List (Char × Bool)} (hne : pass ≠ []) (hcuts : Occurs.Cuts pass detail ps)
    (hm : Shown (markedDetail ps) m) (hin : pass <:+: textOf m) : TakesIn pass m := by
  obtain ⟨before, after, heq⟩ := hin
  obtain ⟨xy, z, rfl, hxy, -⟩ := List.map_eq_append_iff.mp heq.symm
  obtain ⟨x, y, rfl, -, hy⟩ := List.map_eq_append_iff.mp hxy
  refine ⟨x, y, z, rfl, hy, ?_⟩
  by_contra hnone
  have hfree : ∀ s : String, ∀ c ∈ added s, c ∉ y := by
    intro s c hc hcy
    obtain ⟨ch, -, rfl⟩ := List.mem_map.mp hc
    exact hnone ⟨_, hcy, rfl⟩
  have hyne : y ≠ [] := by
    rintro rfl
    exact hne hy.symm
  -- with no added character it lies in what the process printed, and there in one piece
  have hmarked : y <:+: markedDetail ps := hm.infix_of_free hyne (hfree truncatedMark) ⟨x, z, rfl⟩
  obtain ⟨p, hp, hyp⟩ := Occurs.infix_intercalate hyne (hfree redactedMark) (by decide) hmarked
  exact not_infix_plain hne hcuts hy p hp hyp

theorem infix_of_takesIn {pass : List Char} {m : List (Char × Bool)} (h : TakesIn pass m) :
    pass <:+: textOf m := by
  obtain ⟨x, y, z, rfl, rfl, -⟩ := h
  exact ⟨textOf x, textOf z, by rw [textOf_append, textOf_append]⟩

/-- The detail is shown, without the password and not too long. -/
theorem withholds_iff {pass : String} {detail : List Char} :
    (∃ shown, shorten (redact pass detail) = some shown ∧
        Str.contains pass (String.ofList shown) = false ∧
        (String.ofList shown).utf8ByteSize ≤ maxDetail + truncatedMark.utf8ByteSize) ↔
      Withholds pass detail := by
  have hcontains : ∀ l : List Char, Str.contains pass (String.ofList l) = false ↔
      ¬ pass.toList <:+: l := by
    intro l
    rw [← Bool.not_eq_true, Str.contains_iff, String.toList_ofList]
  by_cases hempty : pass = ""
  · -- nothing is without the empty password
    subst hempty
    constructor
    · rintro ⟨shown, -, hno, -⟩
      exact absurd List.nil_infix ((hcontains shown).mp hno)
    · rintro ⟨hne, -⟩
      exact absurd rfl hne
  have hne : pass.toList ≠ [] := fun h => hempty (String.toList_eq_nil_iff.mp h)
  have hredact : ∀ ps, Occurs.Cuts pass.toList detail ps →
      redact pass detail = textOf (markedDetail ps) := by
    intro ps hps
    have hnot : (!pass.toList.isEmpty) = true := by
      cases hl : pass.toList with
      | nil => exact absurd hl hne
      | cons c cs => rfl
    rw [redact, if_pos hnot, Occurs.replaceAll_eq hne hps, textOf_markedDetail]
  constructor
  · rintro ⟨shown, hshown, hno, -⟩
    obtain ⟨ps, hps⟩ := Occurs.exists_cuts hne detail
    rw [hredact ps hps] at hshown
    obtain ⟨m, hm, rfl⟩ := shorten_eq_some_iff.mp hshown
    exact ⟨hempty, ps, m, hps, hm, fun h => (hcontains _).mp hno (infix_of_takesIn h)⟩
  · rintro ⟨-, ps, m, hps, hm, hnot⟩
    refine ⟨textOf m, ?_, ?_, ?_⟩
    · rw [hredact ps hps]
      exact shorten_eq_some_iff.mpr ⟨m, hm, rfl⟩
    · exact (hcontains _).mpr fun h => hnot (takesIn_of_isInfix hne hps hm h)
    · rw [utf8ByteSize_ofList]
      exact hm.len_le

/-- A text without the password is shown if it is not too long. -/
theorem withholds_of_not_isInfix {pass : String} {detail : List Char} (hne : pass ≠ "")
    (hno : ¬ pass.toList <:+: detail) (hlen : len detail ≤ maxDetail) : Withholds pass detail := by
  have htext : markedDetail [detail] = plain detail := List.intercalate_singleton
  refine ⟨hne, [detail], plain detail, .whole hno, ?_, ?_⟩
  · rw [htext]
    exact .whole (by rwa [textOf_plain])
  · intro h
    have hin := infix_of_takesIn h
    rw [textOf_plain] at hin
    exact hno hin

/-! ### The tool -/

section

variable {δ β : Type} {world : RecoveryWorld δ β} {own : Path → Prop}

/-- The import. -/
def IsImport : Request → Prop
  | .importDump _ _ => True
  | _ => False

/-- The text that an operator gets when the import failed, before its error. -/
def doNotServe (safetyBackup : Path) : String :=
  "restore import failed after target reset; DO NOT SERVE this target; safety backup is at "
    ++ display safetyBackup ++ ": "

/-- A restore imports its input into its target. An error of the import ends it with the text that
names the safety backup. -/
theorem restore_import {pid : Nat} {target target' : ResolvedTenant} {input safetyBackup dir : Path}
    {confirmDrop : Option String} {s s' : RecoveryState δ β} {es : List (Σ q, Answer q)}
    {next : Answer (.importDump target' dir) → Procedure BackupManifest}
    (h : Runs (RecoveryState.Answers world own) (restore pid target input safetyBackup confirmDrop)
      s es (.ask (.importDump target' dir) next) s') :
    target' = target ∧ dir = input ∧
      ∀ e, next (.error e) = .done (.error (doNotServe safetyBackup ++ e)) := by
  obtain ⟨es₁, es₂, m, s₁, rfl, -, hdrop⟩ :=
    (only_preflight pid target input safetyBackup confirmDrop).run_bind_ask
      (by exact fun h => h trivial) h
  -- the reset, which is no import
  rcases run_ask_inv hdrop with ⟨-, hask, -⟩ | ⟨r, s₂, es₃, -, -, hrest⟩
  · cases hask
  cases r with
  | error e => cases (run_ended hrest).2.1
  | ok u =>
      rcases run_ask_inv hrest with ⟨-, hask, -⟩ | ⟨r', s₃, es₄, -, -, hlater⟩
      · cases hask
        exact ⟨rfl, rfl, fun e => rfl⟩
      · -- there is no second import
        cases r' with
        | error e => cases (run_ended hlater).2.1
        | ok u' =>
            have honly : ∀ a b : String, ((askOr a (.rotateAccess target) rfl >>= fun _ =>
                askOr b (.assertKeyguard target) rfl) >>= fun _ =>
                (pure m : Procedure BackupManifest)).Only fun q => ¬ IsImport q := fun a b =>
              ((only_askOr fun h => h).bind fun _ => only_askOr fun h => h).bind fun _ => trivial
            exact absurd trivial ((honly _ _).of_run hlater).2.1

end

/-- What an operator learns of a process that has ended. -/
structure Reported (ops : SystemOps) (conn : ConnConfig) (verb : String) (target : ResolvedTenant)
    (file : Path) (output : Output) : Prop where
  /-- It is a success if the process was one. -/
  ok_iff : ops.surreal conn verb target file = some (.ok ()) ↔ output.success = true
  /-- A failure is an error, with a detail that has no password and is not too long. -/
  failed : output.success = false → ∃ detail, ops.surreal conn verb target file =
      some (.error (SystemOps.failedText verb output.status ++ detail)) ∧
    Str.contains conn.rootPass detail = false ∧
    detail.utf8ByteSize ≤ maxDetail + truncatedMark.utf8ByteSize
  /-- A restore whose import this was ends with an error that says so. -/
  served : verb = "import" → output.success = false → ∀ {δ β : Type} {world : RecoveryWorld δ β}
    {own : Path → Prop} {pid : Nat} {target₀ : ResolvedTenant} {input safetyBackup dir : Path}
    {confirmDrop : Option String} {s s' : RecoveryState δ β} {es : List (Σ q, Answer q)}
    {next : Answer (.importDump target dir) → Procedure BackupManifest},
    Runs (RecoveryState.Answers world own) (restore pid target₀ input safetyBackup confirmDrop) s es
      (.ask (.importDump target dir) next) s' → file = fileOf dir dumpFile →
    ∃ e, ops.surreal conn verb target file = some (.error e) ∧
      next (.error e) = .done (.error (doNotServe safetyBackup ++ e))

section

variable {ops : SystemOps} {conn : ConnConfig} {verb : String} {target : ResolvedTenant} {file : Path}
  {output : Output} {plan : TargetPlan}

/-- The result when the process has ended. -/
theorem surreal_eq (hplan : TargetPlan.fromTarget target = .ok plan)
    (houtput : ops.output (ops.command conn plan verb file) = .ok output) :
    ops.surreal conn verb target file =
      if output.success then some (.ok ())
      else (shorten (redact conn.rootPass (said output))).map fun detail =>
        .error (SystemOps.failedText verb output.status ++ String.ofList detail) := by
  simp only [SystemOps.surreal, hplan, houtput]

/-- A failure has its error if the detail can be shown. -/
theorem failed_iff (hplan : TargetPlan.fromTarget target = .ok plan)
    (houtput : ops.output (ops.command conn plan verb file) = .ok output)
    (hfail : output.success = false) :
    (∃ detail, ops.surreal conn verb target file =
        some (.error (SystemOps.failedText verb output.status ++ detail)) ∧
      Str.contains conn.rootPass detail = false ∧
      detail.utf8ByteSize ≤ maxDetail + truncatedMark.utf8ByteSize) ↔
    Withholds conn.rootPass (said output) := by
  have hresult := surreal_eq hplan houtput
  rw [if_neg (by rw [hfail]; exact Bool.false_ne_true)] at hresult
  rw [hresult, ← withholds_iff]
  constructor
  · rintro ⟨detail, hsome, hno, hlen⟩
    obtain ⟨shown, hshown, herr⟩ := Option.map_eq_some_iff.mp hsome
    have hdetail : String.ofList shown = detail := by
      have htext := Except.error.inj herr
      exact String.append_right_inj _ |>.mp htext
    exact ⟨shown, hshown, by rw [hdetail]; exact ⟨hno, hlen⟩⟩
  · rintro ⟨shown, hshown, hno, hlen⟩
    exact ⟨String.ofList shown, by rw [hshown]; rfl, hno, hlen⟩

/-- An operator learns of a failed tool when the tool's text can be shown. -/
theorem reported_iff (hplan : TargetPlan.fromTarget target = .ok plan)
    (houtput : ops.output (ops.command conn plan verb file) = .ok output) :
    Reported ops conn verb target file output ↔
      output.success = true ∨ Withholds conn.rootPass (said output) := by
  constructor
  · intro h
    cases hsuccess : output.success with
    | true => exact .inl rfl
    | false => exact .inr ((failed_iff hplan houtput hsuccess).mp (h.failed hsuccess))
  · intro hcond
    have hwithholds : output.success = false → Withholds conn.rootPass (said output) := by
      intro hfail
      rcases hcond with hsuccess | h
      · rw [hfail] at hsuccess
        cases hsuccess
      · exact h
    refine ⟨?_, fun hfail => (failed_iff hplan houtput hfail).mpr (hwithholds hfail), ?_⟩
    · rw [surreal_eq hplan houtput]
      constructor
      · intro hok
        split at hok
        · assumption
        · obtain ⟨shown, -, herr⟩ := Option.map_eq_some_iff.mp hok
          cases herr
      · intro hsuccess
        rw [if_pos hsuccess]
    · intro _ hfail δ β world own pid target₀ input safetyBackup dir confirmDrop s s' es next hrun _
      obtain ⟨detail, hresult, -⟩ := (failed_iff hplan houtput hfail).mpr (hwithholds hfail)
      obtain ⟨-, -, hnext⟩ := restore_import hrun
      exact ⟨_, hresult, hnext _⟩

end

/-! ### Two failures -/

theorem validName_acme : validName "acme" = true := by decide +kernel

theorem validName_frust : validName "frust" = true := by decide +kernel

/-- A tenant with a database of its own. -/
def acme : ResolvedTenant where
  tenantId := ⟨⟨"acme", validName_acme⟩⟩
  placement := ⟨⟨⟨"frust", validName_frust⟩⟩, ⟨⟨"acme", validName_acme⟩⟩, none⟩
  strategy := .databasePerTenant ⟨⟨"frust", validName_frust⟩⟩

/-- A tool that ends in one way. -/
def endingWith (output : Output) : SystemOps := ⟨[.normal "surreal"], fun _ => .ok output⟩

/-- An import that fails with a text on `stderr`. -/
def failing (l : List Char) : Output :=
  ⟨false, "exit status: 1", [], l.flatMap String.utf8EncodeChar⟩

/-- The account of the tool. -/
def rootConn : ConnConfig := ⟨"ws://127.0.0.1:8000", "root", "secret"⟩

/-- The dump of a backup. -/
def aDump : Path := fileOf [.normal "backup"] dumpFile

theorem said_failing {l : List Char} (hne : l ≠ [])
    (htrim : Str.trimMatches Str.isWhitespace l = l) : said (failing l) = l := by
  have hstderr : trimmedText (failing l).stderr = l := by
    show Str.trimMatches Str.isWhitespace (fromUtf8Lossy (l.flatMap String.utf8EncodeChar)) = l
    rw [fromUtf8Lossy_flatMap, htrim]
  have hsome : l.isEmpty = false := by
    cases l with
    | nil => exact absurd rfl hne
    | cons c cs => rfl
  rw [said, hstderr, hsome]
  rfl

theorem reported_denied : Reported (endingWith (failing "denied".toList)) rootConn "import" acme aDump
    (failing "denied".toList) := by
  refine (reported_iff rfl rfl).mpr (.inr ?_)
  rw [said_failing (by decide) (by decide)]
  exact withholds_of_not_isInfix (by decide) (by decide) (by decide)

/-- Letters of one byte, and one of two. -/
def lettersAnd (n : Nat) : List Char := List.replicate n 'a' ++ ['é']

theorem len_replicate (n : Nat) : len (List.replicate n 'a') = n := by
  induction n with
  | zero => rfl
  | succ n ih =>
      have hsize : Char.utf8Size 'a' = 1 := by decide
      rw [List.replicate_succ, len_cons, ih, hsize]
      omega

theorem trim_lettersAnd (n : Nat) :
    Str.trimMatches Str.isWhitespace (lettersAnd (n + 1)) = lettersAnd (n + 1) := by
  have hfront : (lettersAnd (n + 1)).dropWhile Str.isWhitespace = lettersAnd (n + 1) :=
    Str.dropWhile_of_head ⟨'a', by rw [lettersAnd, List.replicate_succ]; rfl, by decide⟩
  have hback : (lettersAnd (n + 1)).reverse.dropWhile Str.isWhitespace
      = (lettersAnd (n + 1)).reverse :=
    Str.dropWhile_of_head ⟨'é', by rw [lettersAnd, List.reverse_append]; rfl, by decide⟩
  rw [Str.trimMatches, hfront, hback, List.reverse_reverse]

/-- No beginning of them ends within the last letter. -/
theorem len_prefix_lettersAnd {n : Nat} {a : List Char} (h : a <+: lettersAnd n) :
    len a ≠ n + 1 := by
  have hlast : len ['é'] = 2 := by decide
  rcases List.prefix_concat_iff.mp h with rfl | hpre
  · rw [len_append, len_replicate, hlast]
    omega
  · obtain ⟨b, hb⟩ := hpre
    have hlen : len a + len b = n := by rw [← len_append, hb, len_replicate]
    omega

/-- Where the last letter is cut, nothing is shown. -/
theorem not_withholds_lettersAnd {pass : String} (hpass : pass.toList.head? = some 's') :
    ¬ Withholds pass (lettersAnd 4095) := by
  rintro ⟨-, ps, m, hcuts, hshown, -⟩
  have hno : ¬ pass.toList <:+: lettersAnd 4095 := by
    intro hin
    have hs : 's' ∈ lettersAnd 4095 := hin.subset (List.mem_of_head? hpass)
    rcases List.mem_append.mp hs with ha | he
    · exact absurd (List.eq_of_mem_replicate ha) (by decide)
    · exact absurd he (by decide)
  have htext : ps = [lettersAnd 4095] := by
    cases hcuts with
    | whole => rfl
    | cut h => exact absurd h.isInfix hno
  have hmarked : textOf (markedDetail ps) = lettersAnd 4095 := by
    rw [textOf_markedDetail, htext, List.intercalate_singleton]
  have hlast : len ['é'] = 2 := by decide
  have hlen : len (lettersAnd 4095) = 4097 := by rw [lettersAnd, len_append, len_replicate, hlast]
  have hmax : maxDetail = 4096 := rfl
  generalize markedDetail ps = d at hshown hmarked
  cases hshown with
  | whole h =>
      rw [hmarked, hlen] at h
      omega
  | @cut a b _ h =>
      rw [textOf_append] at hmarked
      exact len_prefix_lettersAnd ⟨_, hmarked⟩ h

/-- The panic of a cut within a character. -/
theorem not_reported_overlong : ¬ Reported (endingWith (failing (lettersAnd 4095))) rootConn "import"
    acme aDump (failing (lettersAnd 4095)) := by
  intro h
  have hne : lettersAnd 4095 ≠ [] := List.append_ne_nil_of_right_ne_nil _ (List.cons_ne_nil _ _)
  have hsaid : said (failing (lettersAnd 4095)) = lettersAnd 4095 :=
    said_failing hne (trim_lettersAnd 4094)
  have hshown := (failed_iff rfl rfl rfl).mp (h.failed rfl)
  rw [hsaid] at hshown
  exact not_withholds_lettersAnd rfl hshown

end Recovery

end Frust.Kernel
