import Frust.Proofs.Kernel.Secrecy

/-!
# `Frust.Proofs.Kernel.Transition`: transitions side by side

Any number of calls of `db_transition` run on one store, their requests in any order. A
step is `Lawful` when every state that it changes is changed by the call's own update, to
a state that the workflow declares from the state before it, for the call's action and the
caller's role; and when the state that the call has read is the state that it replaces.

The call reads the document with one statement and writes it with another, and the write
is not conditional. So a step is lawful only as long as nothing comes in between.
`Undisturbed` says so: at an update, no other update of the record has happened since the
call read it (`Store.writes` counts them). It also says what else the law rests on: the
caller's role may read the state, and no hook rewrites it.

`safe_dbTransition` follows one call through its program, whatever it is answered.
`transition_safety` carries it to runs. `not_transition_safety` are two approvers who both
read the same document.
-/

set_option autoImplicit false

namespace Frust.Kernel

open Frust.Lib Frust.Lib.Prog Frust.Lib.Pool Broker

/-! ### The law -/

/-- A call of `db_transition`. -/
structure TransitionCall where
  caller : Caller
  chain : HookChain := []
  doctype : String
  record : String
  action : String

namespace TransitionCall

/-- The record id. -/
def rid (c : TransitionCall) : String := c.doctype ++ ":" ++ c.record

/-- The program. -/
def verb (c : TransitionCall) : Broker Json :=
  dbTransition c.caller c.chain c.doctype c.record c.action

end TransitionCall

/-- The state column, as text. -/
def stateText (row : Doc) : Option String := (col row stateField).toJson.asStr

/-- The workflow declares the transition. -/
def WorkflowDef.Declares (wf : WorkflowDef) (current action role target : String) : Prop :=
  (∃ t ∈ wf.transitions,
    t.fromState = current ∧ t.action = action ∧ t.role = role ∧ t.toState = target) ∧
  (wf.state target).isSome

/-- A pool of transitions. A thread knows the store at its `SELECT`. -/
abbrev TransitionPool (ι : Type) := Pool BrokerError Request Answer Json Store (Option Store) ι

/-- One step of one of them. -/
abbrev TransitionTurn (ι : Type) := Turn Request Answer ι

/-- Remembers the store at a `SELECT`. -/
def learnRead (s : Store) (k : Option Store) : (q : Request) → Answer q → Option Store
  | .sqlAs _ q, _ => match q.stmt with | .select _ => some s | _ => k
  | _, _ => k

section

variable {ι : Type} (site : Site) (calls : ι → TransitionCall)

/-- A step that changes a state does so by a transition that the workflow declares from
the state it replaces, which is the state that the call has read. -/
def Lawful (p : TransitionPool ι) (t : TransitionTurn ι) (p' : TransitionPool ι) : Prop :=
  ∀ rid row row', p.shared.find rid = some row → p'.shared.find rid = some row' →
    col row' stateField ≠ col row stateField →
      let c := calls t.thread
      rid = c.rid ∧
      ∃ wf target, site.workflows c.doctype = some wf ∧ col row' stateField = .text target ∧
        wf.Declares (wf.stateOrInitial (stateText row)) c.action c.caller.role target ∧
        ∃ mark seen, p.known t.thread = some mark ∧ mark.find rid = some seen ∧
          stateText seen = stateText row

/-- A hook leaves the state as it was shown. -/
def keepsState : (q : Request) → Answer q → Bool
  | .validate _ doc, r =>
      match (r : Except BrokerError Doc) with
      | .ok out => out.all fun e => e.1 ≠ stateField || (doc.lookup stateField).any (eqValue e.2)
      | .error _ => true
  | _, _ => true

/-- No other update of the record has come since the call has read it. -/
def isFirst (p : TransitionPool ι) (t : TransitionTurn ι) : Bool :=
  match t.request with
  | .sqlAs _ q =>
      match q.stmt with
      | .update rid _ =>
          (p.known t.thread).all fun mark => mark.writes rid = p.shared.writes rid
      | _ => true
  | _ => true

/-- Nothing comes in between: the caller may read the state, hooks leave it, and an
update is the first one of its record since the call has read it. -/
def Undisturbed (p : TransitionPool ι) (t : TransitionTurn ι) (_ : TransitionPool ι) : Prop :=
  site.hidden (calls t.thread).caller.role (calls t.thread).doctype stateField = false ∧
  keepsState t.request t.answer = true ∧ isFirst p t = true

end

/-- Tables store a state as it is written. -/
def Tables.StoresState (tables : Tables) : Prop :=
  ∀ table before content after, tables.updates table before content after →
    ((objectOf content).lookup stateField = none →
      col after stateField = col before stateField) ∧
    ∀ x, (objectOf content).lookup stateField = some (.text x) → col after stateField = .text x

/-! ### Judging -/

theorem judge_declares {wf : WorkflowDef} {current action role : String} {j : Judged}
    (h : wf.judge current action role = .ok j) : wf.Declares current action role j.toState := by
  unfold WorkflowDef.judge at h
  split at h
  · cases h
  · simp only at h
    split at h
    · cases h
    · split at h
      · cases h
      · split at h
        · cases h
        · rename_i t hfind
          split at h
          · cases h
          · rename_i target htarget
            cases h
            have hmem := List.mem_of_find?_eq_some hfind
            have hrole := List.find?_some hfind
            rw [List.mem_filter, List.mem_filter] at hmem
            obtain ⟨⟨ht, haction⟩, hfrom⟩ := hmem
            refine ⟨⟨t, ht, ?_, ?_, ?_, rfl⟩, by simp [htarget]⟩
            · exact of_decide_eq_true hfrom
            · exact of_decide_eq_true haction
            · exact of_decide_eq_true hrole

/-! ### Reading the state -/

/-- The state of a document that was handed out, if the role may read it. -/
theorem currentState_filterRow {allowed : List String} (h : stateField ∈ allowed)
    (wf : WorkflowDef) (r : Rec) :
    currentState wf (filterRow allowed none (rowJson r)) = wf.stateOrInitial (stateText r.2) := by
  have hid : stateField ≠ "id" := by decide
  have hget : (filterRow allowed none (rowJson r)).get stateField
      = (r.2.lookup stateField).map Value.toJson := by
    simp only [filterRow, rowJson, Json.get]
    rw [List.filter_filter]
    have hlookup := lookup_filter (fun k => decide (k ∈ allowed))
      (("id", Json.string r.1) :: fieldsToJson r.2) stateField
    simp only [Option.all_none, Bool.true_or, Bool.true_and, hlookup, h, decide_true, if_true]
    rw [lookup_cons_eq, if_neg hid, lookup_fieldsToJson]
  rw [currentState, hget, stateText, col]
  cases r.2.lookup stateField <;> rfl

/-- The document that is read by its id is the record. -/
theorem find_of_select {site : Site} {E : Engine} {auth : Auth} {s : Store} (hs : s.Filed)
    {table rid : String} {noindex : Bool} {r : Rec}
    (hr : r ∈ site.select E auth s ⟨table, noindex, some (recordFilter rid), {}⟩) :
    s.find rid = some r.2 := by
  have hmatch : r ∈ site.matching E auth s table (some (recordFilter rid)) := by
    simpa [Site.select, page, Site.ordered] using hr
  have hmem : r ∈ s.rows table := (List.mem_filter.mp (List.mem_filter.mp hmatch).1).1
  have hfilter := (List.mem_filter.mp hmatch).2
  have hrid : r.1 = rid := by
    simpa [recordFilter, View.filter, View.path, View.root, E.eq_recordId] using hfilter
  rw [← hrid]
  exact hs.find_of_mem hmem

/-! ### One call -/

/-- The state `target` was declared from what the call has read. -/
def TransitionCall.Grounded (site : Site) (c : TransitionCall) (k : Option Store)
    (target : String) : Prop :=
  ∃ wf mark seen, site.workflows c.doctype = some wf ∧ k = some mark ∧
    mark.find c.rid = some seen ∧
    wf.Declares (wf.stateOrInitial (stateText seen)) c.action c.caller.role target

/-- An update writes the state that was judged, or none. -/
def TransitionCall.Asks (site : Site) (c : TransitionCall) (k : Option Store) : Request → Prop
  | .sqlAs _ q =>
      match q.stmt with
      | .create _ _ => False
      | .update rid content => rid = c.rid ∧ ∀ v, (objectOf content).lookup stateField = some v →
          ∃ target, v = .text target ∧ c.Grounded site k target
      | _ => True
  | _ => True

theorem asks_of_aside {site : Site} {c : TransitionCall} {k : Option Store} {q : Request}
    (h : q.Aside) : c.Asks site k q ∧ ∀ s r, learnRead s k q r = k := by
  cases q with
  | sqlAs caller q =>
      simp only [Request.Aside] at h
      simp only [TransitionCall.Asks, learnRead]
      split at h
      · rename_i rid hstmt
        simp [hstmt]
      · exact h.elim
  | _ => exact ⟨trivial, fun _ _ => rfl⟩

/-- Of what the hooks return, the state is written as it was judged. -/
theorem state_of_delta {m : DocTypeMeta} {baseline out : Doc} {rid : String} {j : Judged}
    (hkeeps : out.all (fun e => e.1 ≠ stateField ||
      ((withId rid (overlay baseline (judgedDoc j))).lookup stateField).any (eqValue e.2)) = true)
    {doc hookDoc : Doc} {v : Value}
    (hv : (objectOf (delta doc hookDoc (envelope m out))).lookup stateField = some v) :
    v = .text j.toState ∧ ∃ f ∈ m.fields, f.fieldname = stateField := by
  have hmem := mem_of_lookup_objectOf hv
  obtain ⟨henvelope, _⟩ := List.mem_filter.mp hmem
  obtain ⟨hout, hdeclared⟩ := List.mem_filter.mp henvelope
  have hshown := List.all_eq_true.mp hkeeps _ (List.mem_filter.mp hout).1
  constructor
  · -- what the hooks were shown is the judged state
    have hne : ¬stateField = "docstatus" := by decide
    have hoverlay : (overlay baseline (judgedDoc j)).lookup stateField = some (.text j.toState) := by
      simp [overlay, judgedDoc, hne]
    have hwith : (withId rid (overlay baseline (judgedDoc j))).lookup stateField
        = some (.text j.toState) := by
      rw [withId]
      split
      · exact hoverlay
      · rw [List.lookup_append, hoverlay]
        rfl
    rw [hwith] at hshown
    have heq : eqValue v (.text j.toState) = true := by simpa using hshown
    cases v with
    | text x => rw [eqValue, decide_eq_true_eq] at heq; rw [heq]
    | _ => simp [eqValue] at heq
  · have hengine : stateField ∉ engineFields := by decide
    have hdoc : stateField ≠ "docstatus" := by decide
    have hany : (m.fields.any (·.fieldname = stateField)) = true := by
      simpa [hengine, hdoc] using hdeclared
    obtain ⟨f, hf, hname⟩ := List.any_eq_true.mp hany
    exact ⟨f, hf, of_decide_eq_true hname⟩

section

variable {site : Site} {E : Engine} {tables : Tables} {c : TransitionCall} {k : Option Store}

/-- Where an answer is given: in a filed store, by hooks that leave the state. -/
def KeepsFiled (s : Store) (q : Request) (r : Answer q) : Prop :=
  s.Filed ∧ keepsState q r = true

/-- The environment of the transitions. -/
abbrev transitions (site : Site) (E : Engine) (tables : Tables) :
    Env Request Answer Store (Option Store) := traffic site E tables learnRead

theorem safe_dbWriteInner {j : Judged}
    (hj : ∀ m, site.metas c.doctype = some m → (∃ f ∈ m.fields, f.fieldname = stateField) →
      c.Grounded site k j.toState) :
    Safe (transitions site E tables) KeepsFiled (c.Asks site) (fun _ _ => True) k
      (dbWriteInner c.caller c.chain .update c.doctype (some c.record) (judgedDoc j)) := by
  refine safe_loadDoctype _ trivial (fun _ _ => rfl) (fun _ => trivial) fun m hm => ?_
  have hname := site.name_eq _ _ hm
  refine safe_lift_bind (fun _ => trivial) _ fun _ _ => ?_
  -- What is read for the hooks, and the edges, ask nothing of the transition.
  refine Safe.bind (Safe.of_only (only_recordForHook _ _ _) fun q => asks_of_aside)
    (fun k' baseline hk' => ?_) fun _ _ _ => trivial
  subst hk'
  show Safe _ _ _ _ _ (fireEdges _ _ _ _ _ _ edges >>= _)
  refine Safe.bind (Safe.of_only (only_fireEdges _ _ _ _ _ _ _) fun q => asks_of_aside)
    (fun k' _ hk' => ?_) fun _ _ _ => trivial
  subst hk'
  refine ⟨trivial, fun s r s' _ hallowed => ?_⟩
  -- The hook answers with a document that keeps what was filed.
  have hkeeps := hallowed.2
  show Safe _ _ _ _ k' (lift r >>= _)
  refine safe_lift_bind (fun _ => trivial) r fun out hout => ?_
  subst hout
  refine safe_lift_bind (fun _ => trivial) _ fun stmt hstmt => ?_
  obtain ⟨_, _, hwrite⟩ := bind_eq_ok hstmt
  cases hwrite
  refine safe_sqlAs _ _ (fun _ => trivial) fun q hq => ⟨?_, fun s r s' _ _ => ?_⟩
  · simp only [TransitionCall.Asks, hq]
    refine ⟨by rw [hname]; rfl, fun v hv => ?_⟩
    -- So a state that is written is the one that was judged.
    obtain ⟨hv, hdeclared⟩ := state_of_delta (m := m) hkeeps hv
    exact ⟨j.toState, hv, hj m hm hdeclared⟩
  · refine safe_lift_bind (fun _ => trivial) r fun rows _ => ?_
    split
    · trivial
    · exact ⟨trivial, fun _ _ _ _ _ => trivial⟩

/-- If the state is a declared field, then the document was judged from the state of the
record at the `SELECT`. -/
def TransitionCall.Read (site : Site) (c : TransitionCall) (wf : WorkflowDef) (k : Option Store)
    (r : Except BrokerError (List Json)) : Prop :=
  ∀ rows, r = .ok rows → ∀ doc ∈ rows.head?, ∀ m, site.metas c.doctype = some m →
    (∃ f ∈ m.fields, f.fieldname = stateField) →
      ∃ mark seen, k = some mark ∧ mark.find c.rid = some seen ∧
        currentState wf doc = wf.stateOrInitial (stateText seen)

theorem read_error (wf : WorkflowDef) (e : BrokerError) : c.Read site wf k (.error e) :=
  fun _ h => absurd h (by simp)

/-- Of rows that a statement answered, the first is the record. -/
theorem read_ok (wf : WorkflowDef) {s : Store} (hs : s.Filed) {auth : Auth} {m : DocTypeMeta}
    (hm : site.metas c.doctype = some m)
    (hread : site.hidden c.caller.role c.doctype stateField = false) {noindex : Bool} :
    c.Read site wf (some s) (.ok
      (((site.select E auth s ⟨m.name, noindex, some (recordFilter c.rid), {}⟩).map rowJson).map
        (filterRow (readableFields m c.caller.role) (projection [])))) := by
  intro rows hrows doc hdoc m' hm' hdeclared
  cases hrows
  rw [hm] at hm'
  cases hm'
  rw [List.map_map] at hdoc
  obtain ⟨r, hr, rfl⟩ := List.mem_map.mp (List.mem_of_mem_head? hdoc)
  have hreadable : stateField ∈ readableFields m c.caller.role := by
    by_contra hnot
    obtain ⟨f, hf, hname⟩ := hdeclared
    have hhidden : site.hidden c.caller.role c.doctype stateField = true := by
      simp only [Site.hidden, hm, Option.any_some, Bool.and_eq_true, List.any_eq_true]
      exact ⟨⟨f, hf, by simp [hname]⟩, by simp [hnot]⟩
    rw [hhidden] at hread
    cases hread
  exact ⟨s, r.2, rfl, find_of_select hs hr, currentState_filterRow hreadable wf r⟩

theorem safe_dbRead (wf : WorkflowDef)
    (hread : site.hidden c.caller.role c.doctype stateField = false) :
    Safe (transitions site E tables) KeepsFiled (c.Asks site) (c.Read site wf) none
      (dbRead c.caller c.doctype (some (recordFilter c.rid)) [] {}) := by
  refine safe_instrument trivial (fun _ _ => rfl) (read_error wf) ?_
  refine safe_loadDoctype _ trivial (fun _ _ => rfl) (read_error wf) fun m hm => ?_
  refine safe_lift_bind (read_error wf) _ fun _ _ => ?_
  refine safe_sqlAs _ _ (read_error wf) fun q hq => ⟨by simp [TransitionCall.Asks, hq], ?_⟩
  intro s r s' hans hallowed
  have hlearn : learnRead s none (.sqlAs c.caller q) r = some s := by simp [learnRead, hq]
  rw [hlearn]
  refine safe_lift_bind (read_error wf) r fun out hout => ?_
  subst hout
  rcases hans with ⟨hrefuses, _⟩ | ⟨auth, _, hexec⟩
  · rcases hrefuses with ⟨e, he⟩ | ⟨_, hwrite⟩
    · cases he
    · rw [hq] at hwrite
      exact hwrite.elim
  · rw [hq] at hexec
    have hout : Except.ok out = (site.exec E auth "" s _).1 := congrArg Prod.fst hexec
    cases hout
    exact read_ok wf hallowed.1 hm hread

/-- A call of a caller who may read the state asks to write a judged state only. -/
theorem safe_dbTransition (hread : site.hidden c.caller.role c.doctype stateField = false) :
    Safe (transitions site E tables) KeepsFiled (c.Asks site) (fun _ _ => True) none c.verb := by
  refine safe_instrument trivial (fun _ _ => rfl) (fun _ => trivial) ?_
  refine safe_loadWorkflow _ trivial (fun _ _ => rfl) (fun _ => trivial) ?_
  cases hwf : site.workflows c.doctype with
  | none => trivial
  | some wf =>
      refine Safe.bind (safe_dbRead wf hread) (fun k rows hrows => ?_) fun _ _ _ => trivial
      cases hdoc : rows.head? with
      | none => trivial
      | some doc =>
          refine safe_lift_bind (fun _ => trivial) _ fun j hj => ?_
          have hdeclares := judge_declares hj
          refine Safe.bind (safe_dbWriteInner fun m hm hdeclared => ?_) (fun k' stored _ => ?_)
            fun _ _ _ => trivial
          · -- the state that was judged is the one that was read
            obtain ⟨mark, seen, hk, hseen, hcurrent⟩ := hrows rows rfl doc hdoc m hm hdeclared
            exact ⟨wf, mark, seen, hwf, hk, hseen, hcurrent ▸ hdeclares⟩
          · exact ⟨trivial, fun _ _ _ _ _ => trivial⟩

end

/-! ### All calls -/

section

variable {ι : Type} [DecidableEq ι] {site : Site} {E : Engine} {tables : Tables}
  {calls : ι → TransitionCall} {p p' : TransitionPool ι} {t : TransitionTurn ι}

/-- The store is filed, every call that may read the state asks to write judged states
only, and what a call has read is the store before. -/
structure Sound (site : Site) (E : Engine) (tables : Tables) (calls : ι → TransitionCall)
    (p : TransitionPool ι) : Prop where
  filed : p.shared.Filed
  safe : ∀ i, site.hidden (calls i).caller.role (calls i).doctype stateField = false →
    Safe (transitions site E tables) KeepsFiled ((calls i).Asks site) (fun _ _ => True)
      (p.known i) (p.prog i)
  read : ∀ i mark, p.known i = some mark → mark.Before p.shared

theorem Sound.step (hp : Sound site E tables calls p)
    (h : Step (transitions site E tables) p t p') (hkeeps : keepsState t.request t.answer = true) :
    Sound site E tables calls p' where
  filed := h.answers.filed hp.filed
  safe i hread := Safe.step h ⟨hp.filed, hkeeps⟩ (hp.safe i hread)
  read i mark hmark := by
    have hlater : p.shared.Before p'.shared := h.answers.before
    rcases h.known i with hsame | ⟨rfl, hlearnt⟩
    · rw [hsame] at hmark
      exact (hp.read i mark hmark).trans hlater
    · -- either the store was read in this very step, or nothing new is known
      rw [hlearnt] at hmark
      have hold : ∀ mark, p.known t.thread = some mark → mark.Before p'.shared :=
        fun mark h => (hp.read t.thread mark h).trans hlater
      simp only [transitions, traffic, learnRead] at hmark
      split at hmark
      · split at hmark
        · cases hmark
          exact hlater
        · exact hold mark hmark
      · exact hold mark hmark

theorem Sound.lawful (htables : tables.StoresState) (hp : Sound site E tables calls p)
    (h : Step (transitions site E tables) p t p') (hcond : Undisturbed site calls p t p') :
    Lawful site calls p t p' := by
  intro rid row row' hrow hrow' hchange
  obtain ⟨hread, _, hfirst⟩ := hcond
  have hasks := Safe.asks h (hp.safe t.thread hread)
  rcases h.answers.cases with hs | ⟨caller, q, rid₀, content, before, after, hq, hstmt, hfound,
    hafter, hs⟩ | ⟨caller, q, content, rid₀, row₀, hq, hstmt, _, _, _⟩
  · rw [hs, hrow] at hrow'
    cases hrow'
    exact absurd rfl hchange
  · rw [hq] at hasks
    simp only [TransitionCall.Asks, hstmt] at hasks
    obtain ⟨hrid, hjudged⟩ := hasks
    -- the one record that has changed is the one that was updated
    rw [hs, Store.find_put] at hrow'
    split at hrow'
    · rename_i hsame
      subst hsame
      rw [hfound] at hrow hrow'
      cases hrow
      cases hrow'
      obtain ⟨hkept, hwritten⟩ := htables _ _ _ _ hafter
      cases hv : (objectOf content).lookup stateField with
      | none => exact absurd (hkept hv) hchange
      | some v =>
          obtain ⟨target, rfl, wf, mark, seen, hwf, hmark, hseen, hdeclares⟩ := hjudged v hv
          -- nothing was written since the call has read it
          have hnow : p.shared.find rid = some seen := by
            rw [← hrid] at hseen
            have hsame : mark.writes rid = p.shared.writes rid := by
              simpa [isFirst, hq, hstmt, hmark] using hfirst
            exact (hp.read _ mark hmark rid).2 hsame seen hseen
          rw [hfound] at hnow
          cases hnow
          refine ⟨hrid, wf, target, hwf, hwritten target hv, hdeclares, mark, _, hmark, ?_, rfl⟩
          rw [hrid]
          exact hseen
    · rw [hrow] at hrow'
      cases hrow'
      exact absurd rfl hchange
  · rw [hq] at hasks
    simp only [TransitionCall.Asks, hstmt] at hasks

/-- In a run of transitions that are undisturbed at every step, every step is lawful. -/
theorem transition_safety (htables : tables.StoresState)
    (hstart : ∀ i, p.prog i = (calls i).verb ∧ p.known i = none) (hfiled : p.shared.Filed)
    {ts : List (TransitionTurn ι)}
    (hrun : Run.Steps (Step (transitions site E tables)) p (Undisturbed site calls) ts p') :
    Run.Steps (Step (transitions site E tables)) p (Lawful site calls) ts p' := by
  -- At the start no row was read, so the programs are safe as they stand.
  have hsound : Sound site E tables calls p := by
    refine ⟨hfiled, fun i hread => ?_, fun i mark hmark => ?_⟩
    · rw [(hstart i).1, (hstart i).2]
      exact safe_dbTransition hread
    · rw [(hstart i).2] at hmark
      cases hmark
  -- Each step is lawful, and keeps the invariant for the next.
  refine (hrun.of_invariant hsound fun a t b ha hstep hc => ?_).1
  exact ⟨ha.lawful htables hstep hc, ha.step hstep hc.2.1⟩

end

/-! ### Two approvers -/

theorem storesState_verbatim : Tables.verbatim.StoresState := by
  intro table before content after h
  cases h
  refine ⟨fun hnone => ?_, fun x hx => ?_⟩
  · rw [col_mergeRow, hnone]
  · rw [col_mergeRow, hx]
    rfl

/-- Claims: a manager approves or rejects what was submitted. -/
def claimFlow : WorkflowDef where
  name := "claims"
  doctype := "claim"
  states := [{ name := "Submitted" }, { name := "Approved" }, { name := "Rejected" }]
  transitions := [⟨"Submitted", "Approved", "manager", "Approve"⟩,
    ⟨"Submitted", "Rejected", "manager", "Reject"⟩]

/-- A site with claims only. -/
def claims : Site where
  metas name := if name = "claim" then some ⟨"claim", [{ fieldname := stateField }]⟩ else none
  name_eq name m h := by
    split at h
    · rename_i hname
      cases h
      exact hname.symm
    · cases h
  workflows doctype := if doctype = "claim" then some claimFlow else none
  rollups := []
  signin caller := .ok ⟨"app_user:" ++ caller.user, caller.role⟩
  seesOther _ _ _ := false

/-- One claim, submitted. -/
def submittedClaim : Store where
  rows table :=
    if table = "claim" then [("claim:1", [(stateField, .text "Submitted"), ("docstatus", .int 0)])]
    else []
  edges _ := []
  writes _ := 0

theorem filed_submittedClaim : submittedClaim.Filed := by
  intro table
  by_cases ht : table = "claim"
  · subst ht
    refine ⟨by simp [submittedClaim], fun r hr => ?_⟩
    rw [List.mem_singleton.mp hr]
    rfl
  · simp [submittedClaim, ht]

/-- Two managers: one approves the claim, one rejects it. -/
def approvers : Bool → TransitionCall
  | true => { caller := ⟨"ann", "", "manager"⟩, doctype := "claim", record := "1", action := "Approve" }
  | false => { caller := ⟨"bob", "", "manager"⟩, doctype := "claim", record := "1", action := "Reject" }

/-- The two before their first request. -/
def bothStart : TransitionPool Bool := ⟨submittedClaim, fun i => (approvers i).verb, fun _ => none⟩

/-- What the two share. -/
abbrev approverTraffic : Env Request Answer Store (Option Store) :=
  transitions claims plain .verbatim

/-- One after the other: the claim is approved, and cannot be rejected any more. -/
def inTurn : List Bool := List.replicate 11 true ++ List.replicate 6 false

/-- Approvers who come one after the other are lawful. -/
theorem transition_safety_in_turn :
    Run.Steps (Step approverTraffic) bothStart (Lawful claims approvers)
      ((play approverTraffic (claims.attend plain) bothStart inTurn).map (·.2.1))
      (played approverTraffic (claims.attend plain) bothStart inTurn) := by
  have hread : ∀ i, claims.hidden (approvers i).caller.role (approvers i).doctype stateField
      = false := fun i => by cases i <;> rfl
  have hchecks : (play approverTraffic (claims.attend plain) bothStart inTurn).all (fun x =>
      keepsState x.2.1.request x.2.1.answer && isFirst x.1 x.2.1) = true := by
    decide +kernel
  refine transition_safety storesState_verbatim (fun i => ⟨rfl, rfl⟩) filed_submittedClaim
    (steps_play (answers_attend claims plain) inTurn bothStart fun x hx => ?_)
  have hx := List.all_eq_true.mp hchecks x hx
  rw [Bool.and_eq_true] at hx
  exact ⟨hread x.2.1.thread, hx.1, hx.2⟩

/-- Both have read the submitted claim, and the one has rejected it. -/
def rejected : TransitionPool Bool :=
  played approverTraffic (claims.attend plain) bothStart
    (List.replicate 8 true ++ List.replicate 9 false)

/-- The state of the claim. -/
def claimState (p : TransitionPool Bool) : Option String :=
  (p.shared.find "claim:1").bind stateText

/-- The other one approves it all the same: the approval was judged on the submitted
claim, and replaces the rejection. -/
theorem not_transition_safety :
    ¬∀ ts p t p', Run (Step approverTraffic) bothStart ts p → Step approverTraffic p t p' →
      Lawful claims approvers p t p' := by
  intro h
  have hrun : Run (Step approverTraffic) bothStart _ rejected :=
    run_play (answers_attend claims plain) _ _
  have hbefore : claimState rejected = some "Rejected" := by decide +kernel
  have hturn : (next? approverTraffic (claims.attend plain) rejected true).map
      (fun x => (x.1.thread, claimState x.2)) = some (true, some "Approved") := by
    decide +kernel
  obtain ⟨⟨t, p⟩, hx, hafter⟩ := Option.map_eq_some_iff.mp hturn
  obtain ⟨hthread, hafter⟩ := Prod.mk.inj hafter
  have hlawful := h _ rejected t p hrun (step_of_next? (answers_attend claims plain) hx)
  clear hrun hx hturn
  generalize rejected = q at hbefore hlawful
  obtain ⟨row, hrow, hstate⟩ := Option.bind_eq_some_iff.mp hbefore
  obtain ⟨row', hrow', hstate'⟩ := Option.bind_eq_some_iff.mp hafter
  have hchange : col row' stateField ≠ col row stateField := by
    intro hsame
    rw [stateText, hsame, ← stateText, hstate] at hstate'
    exact absurd (Option.some.inj hstate') (by decide)
  obtain ⟨_, wf, target, hwf, _, ⟨⟨tr, htr, hfrom, _⟩, _⟩, _⟩ :=
    hlawful "claim:1" row row' hrow hrow' hchange
  -- no transition leads away from a rejected claim
  rw [hthread] at hwf
  cases (show some claimFlow = some wf from hwf)
  rw [hstate] at hfrom
  have hnone : ∀ tr ∈ claimFlow.transitions,
      tr.fromState ≠ claimFlow.stateOrInitial (some "Rejected") := by decide
  exact hnone tr htr hfrom

end Frust.Kernel
