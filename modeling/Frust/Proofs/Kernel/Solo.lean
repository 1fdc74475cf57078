import Frust.Kernel.Solo
import Frust.Proofs.Kernel.Store

/-!
# `Frust.Proofs.Kernel.Solo`: what a write alone with a record goes through

`SoloWrite` lists what a `db_write` has gone through when it succeeds: what the hooks were
shown and returned, what was sent, and what the table stored. `solo_write` reads it off the
run of the program.
-/

set_option autoImplicit false

namespace Frust.Kernel

open Frust.Lib Frust.Lib.Prog Broker

section

variable {solo : Solo} {E : Engine} {s s' : SoloState}

/-- The edges from one docstatus to another. -/
def crossed (before after : Int) : List (Int × HookClass) :=
  edges.filter fun e => before ≠ e.1 ∧ after = e.1

theorem SoloState.run_lift {α : Type} {r : Except BrokerError α} {a : α}
    (h : (lift r).run (solo.serve E) s = (.ok a, s')) : r = .ok a ∧ s = s' := by
  cases h
  exact ⟨rfl, rfl⟩

theorem SoloState.run_sqlAs {caller : Caller} {stmt : Statement} {out : Json}
    (h : (sqlAs caller stmt).run (solo.serve E) s = (.ok out, s')) :
    out = (solo.exec E s.row stmt).1 ∧
      s' = { s with
        row := (solo.exec E s.row stmt).2
        sent := s.sent ++ [stmt]
        committed := if (solo.stores E s.row stmt).isSome then s.ran else s.committed } := by
  unfold sqlAs at h
  split at h
  · rename_i q hq
    rw [← stmt_of_compile hq]
    obtain ⟨hout, hs⟩ := Prod.mk.inj h
    exact ⟨(Except.ok.inj hout).symm, hs.symm⟩
  · cases h

theorem SoloState.run_fire {hook : HookClass} {doctype : String} {doc out : Doc}
    (h : (fire hook doctype doc).run (solo.serve E) s = (.ok out, s')) :
    solo.fire hook doc = .ok out ∧ s' = { s with ran := s.ran ++ [(hook, true)] } := by
  obtain ⟨hout, hs⟩ := Prod.mk.inj h
  have hok : solo.fire hook doc = .ok out := hout
  refine ⟨hok, ?_⟩
  rw [← hs]
  show { s with ran := s.ran ++ [(hook, (solo.fire hook doc).isOk)] } = _
  rw [hok]
  rfl

theorem SoloState.run_validate {doctype : String} {doc out : Doc}
    (h : (validate doctype doc).run (solo.serve E) s = (.ok out, s')) :
    solo.validate doc = .ok out ∧ s = s' := by
  obtain ⟨hout, hs⟩ := Prod.mk.inj h
  exact ⟨hout, hs⟩

theorem SoloState.run_instrument {α : Type} (p : Broker α) (s : SoloState) :
    (instrument p).run (solo.serve E) s = p.run (solo.serve E) s := rfl

/-- The read of the record before the write. -/
theorem SoloState.run_loadBaseline {caller : Caller} {op : WriteOp} {record : Option String}
    {baseline : Doc}
    (h : (loadBaseline caller solo.doctype op record).run (solo.serve E) s = (.ok baseline, s')) :
    baseline = solo.baseline E s.row op record ∧ s'.row = s.row ∧ s'.ran = s.ran := by
  unfold loadBaseline at h
  split at h
  · rename_i key
    unfold recordForHook at h
    obtain ⟨out, s₁, hsql, hdone⟩ := run_bind_inv h
    obtain ⟨hout, hs₁⟩ := SoloState.run_sqlAs hsql
    cases hdone
    subst hs₁
    refine ⟨?_, rfl, rfl⟩
    rw [hout]
    unfold Solo.baseline Solo.exec
    cases solo.look E s.row <;> rfl
  · rename_i hnot
    cases h
    refine ⟨?_, rfl, rfl⟩
    unfold Solo.baseline
    split
    · exact (hnot _ rfl rfl).elim
    · rfl

/-- On a create `before_insert` runs first. -/
theorem SoloState.run_beforeInsert {chain : HookChain} {rid doctype : String} {doc shown : Doc}
    {op : WriteOp}
    (h : (beforeInsert chain rid doctype doc op).run (solo.serve E) s = (.ok shown, s')) :
    s'.row = s.row ∧ s'.ran = s.ran ++ Solo.inserts op ∧ match op with
      | .create => solo.fire .beforeInsert doc = .ok shown
      | .update => shown = doc := by
  cases op with
  | create =>
      obtain ⟨_, s₁, hpush, hfire⟩ := run_bind_inv h
      obtain ⟨_, rfl⟩ := SoloState.run_lift hpush
      obtain ⟨hout, rfl⟩ := SoloState.run_fire hfire
      exact ⟨rfl, rfl, hout⟩
  | update =>
      cases h
      exact ⟨rfl, (List.append_nil _).symm, rfl⟩

/-- The hooks of the edges run, and accept. -/
theorem SoloState.run_fireEdges {chain : HookChain} {rid doctype : String} {doc : Doc}
    {before after : Int} {es : List (Int × HookClass)}
    (h : (fireEdges chain rid doctype doc before after es).run (solo.serve E) s = (.ok (), s')) :
    s'.row = s.row ∧ s'.ran = s.ran
      ++ (es.filter fun e => before ≠ e.1 ∧ after = e.1).map fun e => (e.2, true) := by
  induction es generalizing s with
  | nil =>
      cases h
      exact ⟨rfl, (List.append_nil _).symm⟩
  | cons e rest ih =>
      obtain ⟨target, hook⟩ := e
      unfold fireEdges at h
      by_cases hcross : before ≠ target ∧ after = target
      · rw [if_pos hcross] at h
        obtain ⟨_, s₁, hpush, h⟩ := run_bind_inv h
        obtain ⟨_, rfl⟩ := SoloState.run_lift hpush
        obtain ⟨_, s₂, hfire, h⟩ := run_bind_inv h
        obtain ⟨_, rfl⟩ := SoloState.run_fire hfire
        obtain ⟨hrow, hran⟩ := ih h
        refine ⟨hrow, ?_⟩
        rw [hran, List.filter_cons, if_pos (by simpa using hcross), List.map_cons, List.append_assoc]
        rfl
      · rw [if_neg hcross] at h
        obtain ⟨hrow, hran⟩ := ih h
        refine ⟨hrow, ?_⟩
        rw [hran, List.filter_cons, if_neg (by simpa using hcross)]

end

/-- What a write that succeeds has gone through. -/
structure SoloWrite (solo : Solo) (E : Engine) (op : WriteOp) (record : Option String) (doc : Doc)
    (s s' : SoloState) where
  /-- What `validate` was shown. -/
  shown : Doc
  /-- What it returned. -/
  validated : Doc
  /-- The row that was stored. -/
  after : Doc
  shows : solo.shown E s.row op record doc = .ok shown
  validates : solo.validate shown = .ok validated
  sent : ∃ before stmt, s'.sent = before ++ [stmt] ∧
    writeStatement solo.doctype op record (solo.content op doc shown validated) = .ok stmt ∧
    solo.stores E s.row stmt = some after
  row : s'.row = some after
  committed : s'.committed = s'.ran
  ran : s'.ran = s.ran ++ Solo.inserts op
    ++ (crossed ((docstatusOf (solo.baseline E s.row op record)).getD 0)
        ((docstatusOf shown).getD ((docstatusOf (solo.baseline E s.row op record)).getD 0))).map
      fun e => (e.2, true)

/-! ### What was sent -/

section

variable {solo : Solo} {E : Engine} {s s' : SoloState}

/-- No update was sent yet. -/
def SoloState.Fresh (s : SoloState) : Prop := ∀ rid content, Statement.update rid content ∉ s.sent

theorem only_loadBaseline (caller : Caller) (m : DocTypeMeta) (op : WriteOp)
    (record : Option String) : (loadBaseline caller m op record).Only Request.Aside := by
  unfold loadBaseline
  split
  · exact only_recordForHook _ _ _
  · trivial

theorem fresh_serve (solo : Solo) (E : Engine) (s : SoloState) (q : Request) (hq : q.Aside) (hs : s.Fresh) :
    (solo.serve E s q).2.Fresh := by
  intro rid content
  cases q with
  | sqlAs caller q =>
      obtain ⟨stmt, text, htext⟩ := q
      cases stmt with
      | record key =>
          intro hin
          rcases List.mem_append.mp hin with hin | hin
          · exact hs rid content hin
          · exact absurd (List.mem_singleton.mp hin) (by simp)
      | _ => exact hq.elim
  | _ => exact hs rid content

/-- Of updates, only this statement was sent. -/
def SoloState.Sent (stmt : Statement) (s : SoloState) : Prop :=
  ∀ rid content, Statement.update rid content ∈ s.sent → .update rid content = stmt

/-- Sends this statement only. -/
def Request.Stores (stmt : Statement) : Request → Prop
  | .sqlAs _ q => q.stmt = stmt
  | _ => True

theorem sent_serve (solo : Solo) (E : Engine) {stmt : Statement} (s : SoloState) (q : Request)
    (hq : q.Stores stmt)
    (hs : s.Sent stmt) : (solo.serve E s q).2.Sent stmt := by
  intro rid content hin
  cases q with
  | sqlAs caller q =>
      rcases List.mem_append.mp hin with hin | hin
      · exact hs rid content hin
      · exact (List.mem_singleton.mp hin).trans hq
  | _ => exact hs rid content hin

theorem only_sqlAs (caller : Caller) (stmt : Statement) :
    (sqlAs caller stmt).Only (Request.Stores stmt) := by
  unfold sqlAs
  split
  · rename_i q hq
    exact ⟨stmt_of_compile hq, fun r => only_lift _ r⟩
  · trivial

theorem sent_of_run {α : Type} {p : Broker α} {r : Except BrokerError α} {stmt : Statement}
    (h : p.run (solo.serve E) s = (r, s')) (hp : p.Only (Request.Stores stmt))
    (hs : s.Sent stmt) : s'.Sent stmt := by
  have hsent := hp.run_invariant (I := SoloState.Sent stmt) (sent_serve solo E) hs
  rw [h] at hsent
  exact hsent

/-- A run that sends an update goes through a part that sends none. -/
theorem run_bind_sends {α β : Type} {p : Broker α} {f : α → Broker β} {r : Except BrokerError β}
    {rid : String} {content : Doc} (hsent : .update rid content ∈ s'.sent) (hs : s.Fresh)
    (h : (p >>= f).run (solo.serve E) s = (r, s')) (hp : p.Only Request.Aside) :
    ∃ a s₁, p.run (solo.serve E) s = (.ok a, s₁) ∧ s₁.Fresh ∧
      (f a).run (solo.serve E) s₁ = (r, s') := by
  have hfresh := hp.run_invariant (I := SoloState.Fresh) (fresh_serve solo E) hs
  rcases run_bind_cases h with hend | ⟨a, s₁, hrun, h⟩
  · rw [hend] at hfresh
    exact absurd hsent (hfresh rid content)
  · rw [hrun] at hfresh
    exact ⟨a, s₁, hrun, hfresh, h⟩

/-- An update that is sent, whatever becomes of it, is that of what `validate` returned. -/
theorem solo_sends {caller : Caller} {chain : HookChain} {op : WriteOp} {doctype : String}
    {record : Option String} {doc : Doc} {r : Except BrokerError Json} {rid : String}
    {content : Doc}
    (h : (dbWrite caller chain op doctype record doc).run (solo.serve E) s = (r, s'))
    (hs : s.Fresh) (hsent : .update rid content ∈ s'.sent) :
    ∃ shown validated, solo.shown E s.row op record doc = .ok shown ∧
      solo.validate shown = .ok validated ∧
      writeStatement solo.doctype op record (solo.content op doc shown validated)
        = .ok (.update rid content) := by
  rw [dbWrite, SoloState.run_instrument, dbWriteInner] at h
  obtain ⟨m, s₀, hload, hs, h⟩ := run_bind_sends hsent hs h ⟨trivial, only_lift _⟩
  cases hload
  -- Nothing before the write sends a statement.
  obtain ⟨_, s₀, hpush, hs, h⟩ := run_bind_sends hsent hs h (only_lift _ _)
  obtain ⟨_, rfl⟩ := SoloState.run_lift hpush
  obtain ⟨baseline, s₁, hbaseline, hs, h⟩ := run_bind_sends hsent hs h (only_loadBaseline ..)
  obtain ⟨rfl, hrow₁, _⟩ := SoloState.run_loadBaseline hbaseline
  obtain ⟨shown, s₂, hinsert, hs, h⟩ := run_bind_sends hsent hs h (only_beforeInsert ..)
  obtain ⟨_, _, hshown⟩ := SoloState.run_beforeInsert hinsert
  obtain ⟨_, s₃, _, hs, h⟩ := run_bind_sends hsent hs h (only_fireEdges ..)
  obtain ⟨validated, s₄, hvalidate, hs, h⟩ := run_bind_sends hsent hs h ⟨trivial, only_lift _⟩
  obtain ⟨hvalidated, rfl⟩ := SoloState.run_validate hvalidate
  obtain ⟨stmt, s₅, hwrite, hs, h⟩ := run_bind_sends hsent hs h (only_lift _ _)
  obtain ⟨hstmt, rfl⟩ := SoloState.run_lift hwrite
  -- So the statement that was sent is the one of the write.
  have hlast : s'.Sent stmt := by
    refine sent_of_run h (Only.bind (only_sqlAs caller stmt) fun out => ?_)
      fun rid content hin => (hs rid content hin).elim
    split
    · trivial
    · exact ⟨trivial, fun _ => trivial⟩
  have hthe := hlast rid content hsent
  subst hthe
  refine ⟨shown, validated, ?_, hvalidated, ?_⟩
  · cases op with
    | create => exact hshown
    | update => exact congrArg Except.ok hshown.symm
  · cases op <;> exact hstmt

end

/-! ### A write that succeeds -/

/-- What a write answers, and what it leaves. -/
theorem exec_of_write {solo : Solo} {E : Engine} {row : Option Doc} {stmt : Statement}
    (hwrite : ∀ rid, stmt ≠ .record rid) :
    solo.exec E row stmt = match solo.stores E row stmt with
      | some after => (.array [rowJson (solo.target stmt, after)], some after)
      | none => (.array [], row) := by
  unfold Solo.exec
  split
  · exact absurd rfl (hwrite _)
  · rfl

/-- A write of a statement that stores a row answers with it. -/
theorem exec_write {solo : Solo} {E : Engine} {row : Option Doc} {m : DocTypeMeta} {op : WriteOp}
    {record : Option String} {content : Doc} {stmt : Statement}
    (h : writeStatement m op record content = .ok stmt) {stored : Json}
    (hstored : (solo.exec E row stmt).1.rows.head? = some stored) :
    ∃ after, solo.stores E row stmt = some after ∧ (solo.exec E row stmt).2 = some after := by
  have hwrite : ∀ rid, stmt ≠ .record rid := by
    rintro rid rfl
    unfold writeStatement at h
    obtain ⟨_, _, h⟩ := bind_eq_ok h
    split at h <;> cases h
  rw [exec_of_write hwrite] at hstored ⊢
  cases hafter : solo.stores E row stmt with
  | none =>
      rw [hafter] at hstored
      cases hstored
  | some after => exact ⟨after, rfl, rfl⟩

theorem solo_write {solo : Solo} {E : Engine} {caller : Caller} {chain : HookChain} {op : WriteOp}
    {doctype : String} {record : Option String} {doc : Doc} {s s' : SoloState} {stored : Json}
    (h : (dbWrite caller chain op doctype record doc).run (solo.serve E) s = (.ok stored, s')) :
    Nonempty (SoloWrite solo E op record doc s s') := by
  rw [dbWrite, SoloState.run_instrument, dbWriteInner] at h
  obtain ⟨m, s₀, hload, h⟩ := run_bind_inv h
  cases hload
  obtain ⟨_, s₀, hpush, h⟩ := run_bind_inv h
  obtain ⟨_, rfl⟩ := SoloState.run_lift hpush
  obtain ⟨baseline, s₁, hbaseline, h⟩ := run_bind_inv h
  obtain ⟨rfl, hrow₁, hran₁⟩ := SoloState.run_loadBaseline hbaseline
  obtain ⟨shown, s₂, hinsert, h⟩ := run_bind_inv h
  obtain ⟨hrow₂, hran₂, hshown⟩ := SoloState.run_beforeInsert hinsert
  obtain ⟨_, s₃, hedges, h⟩ := run_bind_inv h
  obtain ⟨hrow₃, hran₃⟩ := SoloState.run_fireEdges hedges
  obtain ⟨validated, s₄, hvalidate, h⟩ := run_bind_inv h
  obtain ⟨hvalidated, rfl⟩ := SoloState.run_validate hvalidate
  obtain ⟨stmt, s₅, hwrite, h⟩ := run_bind_inv h
  obtain ⟨hstmt, rfl⟩ := SoloState.run_lift hwrite
  obtain ⟨out, s₆, hsql, h⟩ := run_bind_inv h
  obtain ⟨rfl, rfl⟩ := SoloState.run_sqlAs hsql
  -- The hooks and the edges leave the row as it was.
  have hrow : s₃.row = s.row := (hrow₃.trans hrow₂).trans hrow₁
  -- A statement that answers no row makes the write fail.
  cases hhead : (solo.exec E s₃.row stmt).1.rows.head? with
  | none =>
      rw [hhead] at h
      cases h
  | some answer =>
      rw [hhead] at h
      obtain ⟨after, hafter, hrow'⟩ := exec_write hstmt hhead
      obtain ⟨_, s₇, hnotify, h⟩ := run_bind_inv h
      cases hnotify
      cases h
      rw [hrow] at hafter
      refine ⟨⟨shown, validated, after, ?_, hvalidated, ⟨s₃.sent, stmt, rfl, ?_, hafter⟩, hrow',
        ?_, ?_⟩⟩
      · cases op with
        | create => exact hshown
        | update => exact congrArg Except.ok hshown.symm
      · cases op <;> exact hstmt
      · exact if_pos (by rw [hrow, hafter]; rfl)
      · show s₃.ran = _
        rw [hran₃, hran₂, hran₁]
        rfl

end Frust.Kernel
