import Frust.Kernel.Store
import Frust.Proofs.Kernel.Row

/-!
# `Frust.Proofs.Kernel.Store`: finding records, and what a verb asks

What a record's row is after another, or the same, was stored (`find_put`) or added
(`find_add`), and that a store stays `Filed`.

`traffic` is the environment that the verbs of a site share, with a `learn` that each
group of results chooses for itself. The rules follow a verb's program request by
request (`safe_loadDoctype`, `safe_sqlAs` and so on), and the stretches of a write that
ask for nothing but hooks and the record are taken in one go (`only_fireEdges`).
-/

set_option autoImplicit false

namespace Frust.Kernel

theorem lookup_map_put (records : List Rec) (rid : String) (row : Doc) (rid' : String) :
    (records.map fun r => if r.1 = rid then (rid, row) else r).lookup rid'
      = if rid' = rid then (records.lookup rid).map fun _ => row else records.lookup rid' := by
  induction records with
  | nil => simp
  | cons r rest ih =>
      obtain ⟨rid₀, row₀⟩ := r
      rw [List.map_cons]
      by_cases h₀ : rid₀ = rid
      · subst h₀
        rw [if_pos rfl, lookup_cons_eq, lookup_cons_eq, lookup_cons_eq, ih]
        by_cases h : rid' = rid₀ <;> simp [h]
      · rw [if_neg h₀, lookup_cons_eq, lookup_cons_eq, lookup_cons_eq, ih]
        by_cases h : rid' = rid
        · subst h
          rw [if_neg (Ne.symm h₀), if_pos rfl, if_neg (Ne.symm h₀), if_pos rfl]
        · rw [if_neg h, if_neg h]

theorem lookup_append_single (records : List Rec) (rid : String) (row : Doc) (rid' : String)
    (hnew : records.lookup rid = none) :
    (records ++ [(rid, row)]).lookup rid'
      = if rid' = rid then some row else records.lookup rid' := by
  rw [List.lookup_append]
  by_cases h : rid' = rid
  · subst h
    rw [hnew, if_pos rfl]
    simp
  · rw [if_neg h]
    simp [lookup_cons_eq, h]

/-! ### Answers -/

theorem fieldsToJson_eq_map (row : Doc) :
    fieldsToJson row = row.map fun e => (e.1, e.2.toJson) := by
  induction row with
  | nil => rfl
  | cons e rest ih => rw [fieldsToJson, ih, List.map_cons]

theorem lookup_fieldsToJson (row : Doc) (k : String) :
    (fieldsToJson row).lookup k = (row.lookup k).map Value.toJson := by
  rw [fieldsToJson_eq_map]
  exact lookup_map_snd _ _ _

namespace Store

variable (s : Store) (rid : String) (row : Doc)

/-- After a row was stored over a record's. -/
theorem find_put (rid' : String) :
    (s.put rid row).find rid'
      = if rid' = rid then (s.find rid).map fun _ => row else s.find rid' := by
  by_cases ht : tableOf rid' = tableOf rid
  · simp only [find, put, ht, Function.update_self]
    exact lookup_map_put _ _ _ _
  · have hne : rid' ≠ rid := fun h => ht (h ▸ rfl)
    simp [find, put, ht, hne]

theorem find_add (hnew : s.find rid = none) (rid' : String) :
    (s.add rid row).find rid' = if rid' = rid then some row else s.find rid' := by
  by_cases ht : tableOf rid' = tableOf rid
  · simp only [find, add, ht, Function.update_self]
    exact lookup_append_single _ _ _ _ hnew
  · have hne : rid' ≠ rid := fun h => ht (h ▸ rfl)
    simp [find, add, ht, hne]

theorem writes_put (rid' : String) :
    (s.put rid row).writes rid' = if rid' = rid then s.writes rid + 1 else s.writes rid' := by
  simp [put, Function.update_apply]

variable {s rid row}

/-- In a filed store a record is found by its id. -/
theorem Filed.find_of_mem (h : s.Filed) {table : String} {r : Rec} (hr : r ∈ s.rows table) :
    s.find r.1 = some r.2 := by
  obtain ⟨hnodup, hfiled⟩ := h table
  rw [find, hfiled r hr]
  exact lookup_of_mem hnodup hr

theorem Filed.put (h : s.Filed) : (s.put rid row).Filed := by
  intro table
  by_cases ht : table = tableOf rid
  · subst ht
    have hids : ((s.rows (tableOf rid)).map fun r => if r.1 = rid then (rid, row) else r).map (·.1)
        = (s.rows (tableOf rid)).map (·.1) := by
      rw [List.map_map]
      refine List.map_congr_left fun r _ => ?_
      by_cases hr : r.1 = rid <;> simp [hr]
    simp only [Store.put, Function.update_self]
    refine ⟨hids ▸ (h _).1, fun r hr => ?_⟩
    obtain ⟨r₀, hr₀, rfl⟩ := List.mem_map.mp hr
    by_cases hrid : r₀.1 = rid
    · simp [hrid]
    · simpa [hrid] using (h _).2 r₀ hr₀
  · simpa [Store.put, ht] using h table

theorem Filed.add (h : s.Filed) (hnew : s.find rid = none) : (s.add rid row).Filed := by
  intro table
  by_cases ht : table = tableOf rid
  · subst ht
    simp only [Store.add, Function.update_self]
    refine ⟨?_, fun r hr => ?_⟩
    · rw [List.map_append, List.nodup_append]
      refine ⟨(h _).1, by simp, fun a ha b hb hab => ?_⟩
      have hb' : b = rid := by simpa using hb
      subst hb'
      subst hab
      obtain ⟨r₀, hr₀, rfl⟩ := List.mem_map.mp ha
      have hfound := h.find_of_mem hr₀
      rw [hnew] at hfound
      cases hfound
    · rcases List.mem_append.mp hr with hr₀ | hrid
      · exact (h _).2 r hr₀
      · rw [List.mem_singleton.mp hrid]
  · simpa [Store.add, ht] using h table

/-- `s` is the store later on: updates were counted, and a record without one is there as
it was. -/
def Before (mark s : Store) : Prop :=
  ∀ rid, mark.writes rid ≤ s.writes rid ∧
    (mark.writes rid = s.writes rid → ∀ row, mark.find rid = some row → s.find rid = some row)

theorem Before.refl (s : Store) : s.Before s := fun _ => ⟨Nat.le_refl _, fun _ _ h => h⟩

theorem Before.trans {mark s s' : Store} (h : mark.Before s) (h' : s.Before s') :
    mark.Before s' := by
  intro rid
  obtain ⟨hle, hsame⟩ := h rid
  obtain ⟨hle', hsame'⟩ := h' rid
  refine ⟨Nat.le_trans hle hle', fun heq row hrow => ?_⟩
  exact hsame' (by omega) row (hsame (by omega) row hrow)

theorem before_put (s : Store) (rid : String) (row : Doc) : s.Before (s.put rid row) := by
  intro rid'
  rw [writes_put, find_put]
  by_cases h : rid' = rid
  · subst h
    simp
  · simp [h]

theorem before_add (s : Store) (rid : String) (row : Doc) (hnew : s.find rid = none) :
    s.Before (s.add rid row) := by
  intro rid'
  refine ⟨Nat.le_refl _, fun _ row' hrow' => ?_⟩
  rw [find_add _ _ _ hnew]
  by_cases h : rid' = rid
  · subst h
    rw [hnew] at hrow'
    cases hrow'
  · rw [if_neg h]
    exact hrow'

end Store

namespace Site

variable {site : Site} {E : Engine} {tables : Tables} {auth : Auth} {s s' : Store}

/-- What a statement can do to the store. -/
theorem Executes.cases {stmt : Statement} {r : Except BrokerError Json}
    (h : site.Executes E tables auth s stmt r s') :
    (∃ table content rid row, stmt = .create table content ∧ tableOf rid = table ∧
      s.find rid = none ∧ tables.creates table content row ∧
      r = .ok (.array [rowJson (rid, row)]) ∧ s' = s.add rid row) ∨
    (∃ rid content before after, stmt = .update rid content ∧ s.find rid = some before ∧
      tables.updates (tableOf rid) before content after ∧
      r = .ok (.array [rowJson (rid, after)]) ∧ s' = s.put rid after) ∨
    (s' = s ∧ r = (site.exec E auth "" s stmt).1 ∧
      ∀ rid content, stmt ≠ .create rid content ∧ stmt ≠ .update rid content) := by
  cases stmt with
  | create table content =>
      obtain ⟨rid, row, h⟩ := h
      exact Or.inl ⟨table, content, rid, row, rfl, h⟩
  | update rid content =>
      obtain ⟨before, after, h⟩ := h
      exact Or.inr (Or.inl ⟨rid, content, before, after, rfl, h⟩)
  | select q =>
      have hboth : (r, s') = site.exec E auth "" s (.select q) := h
      exact Or.inr (Or.inr ⟨congrArg Prod.snd hboth, congrArg Prod.fst hboth, by simp⟩)
  | aggregate q =>
      have hboth : (r, s') = site.exec E auth "" s (.aggregate q) := h
      exact Or.inr (Or.inr ⟨congrArg Prod.snd hboth, congrArg Prod.fst hboth, by simp⟩)
  | record rid =>
      have hboth : (r, s') = site.exec E auth "" s (.record rid) := h
      exact Or.inr (Or.inr ⟨congrArg Prod.snd hboth, congrArg Prod.fst hboth, by simp⟩)

/-- What an answer can do to the store. -/
theorem Answers.cases {q : Request} {r : Answer q} (h : site.Answers E tables s q r s') :
    s' = s ∨
    (∃ caller query rid content before after, q = .sqlAs caller query ∧
      query.stmt = .update rid content ∧ s.find rid = some before ∧
      tables.updates (tableOf rid) before content after ∧ s' = s.put rid after) ∨
    (∃ caller query content rid row, q = .sqlAs caller query ∧
      query.stmt = .create (tableOf rid) content ∧ s.find rid = none ∧
      tables.creates (tableOf rid) content row ∧ s' = s.add rid row) := by
  cases q with
  | sqlAs caller q =>
      rcases h with ⟨_, hs⟩ | ⟨auth, _, hexec⟩
      · exact Or.inl hs
      · rcases hexec.cases with ⟨table, content, rid, row, hstmt, htable, hnew, hrow, _, hs⟩ |
          ⟨rid, content, before, after, hstmt, hfound, hafter, _, hs⟩ | ⟨hs, _⟩
        · subst htable
          exact Or.inr (Or.inr ⟨caller, q, content, rid, row, rfl, hstmt, hnew, hrow, hs⟩)
        · exact Or.inr (Or.inl ⟨caller, q, rid, content, before, after, rfl, hstmt, hfound,
            hafter, hs⟩)
        · exact Or.inl hs
  | loadDoctype name => exact Or.inl h.1
  | loadWorkflow doctype => exact Or.inl h.1
  | admitVerb => exact Or.inl h
  | fire hook doctype doc => exact Or.inl h
  | validate doctype doc => exact Or.inl h
  | notify doctype stored triggers => exact Or.inl h

/-- Every answer keeps the store filed. -/
theorem Answers.filed {q : Request} {r : Answer q} (hs : s.Filed)
    (h : site.Answers E tables s q r s') : s'.Filed := by
  rcases h.cases with rfl | ⟨_, _, _, _, _, _, _, _, _, _, rfl⟩ |
    ⟨_, _, _, _, _, _, _, hnew, _, rfl⟩
  · exact hs
  · exact hs.put
  · exact hs.add hnew

theorem Answers.before {q : Request} {r : Answer q} (h : site.Answers E tables s q r s') :
    s.Before s' := by
  rcases h.cases with rfl | ⟨_, _, rid, _, _, after, _, _, _, _, rfl⟩ |
    ⟨_, _, _, rid, row, _, _, hnew, _, rfl⟩
  · exact Store.Before.refl _
  · exact Store.before_put _ _ _
  · exact Store.before_add _ _ _ hnew

end Site

/-! ### What a verb asks -/

open Frust.Lib Frust.Lib.Prog Frust.Lib.Pool Broker

/-- The environment of the verbs on a site. -/
def traffic (site : Site) (E : Engine) (tables : Tables) {κ : Type}
    (learn : Store → κ → (q : Request) → Answer q → κ) : Env Request Answer Store κ :=
  ⟨site.Answers E tables, learn⟩

/-- A query is of the statement that it was compiled from. -/
theorem stmt_of_compile {stmt : Statement} {q : Query} (h : stmt.compile = .ok q) :
    q.stmt = stmt := by
  unfold Statement.compile at h
  split at h
  · cases h
    rfl
  · cases h

section

variable {site : Site} {E : Engine} {tables : Tables} {κ α β : Type}
  {learn : Store → κ → (q : Request) → Answer q → κ}
  {allowed : Store → (q : Request) → Answer q → Prop} {ok : κ → Request → Prop}
  {post : κ → Except BrokerError α → Prop} {k : κ}

/-! ### Rules for the requests -/

theorem safe_lift_bind (herr : ∀ e, post k (.error e)) (r : Except BrokerError β)
    {f : β → Broker α} (hf : ∀ b, r = .ok b → Safe (traffic site E tables learn) allowed ok post k (f b)) :
    Safe (traffic site E tables learn) allowed ok post k (lift r >>= f) := by
  cases r with
  | ok b => exact hf b rfl
  | error e => exact herr e

theorem safe_instrument (hok : ok k .admitVerb) (hlearn : ∀ s r, learn s k .admitVerb r = k)
    (herr : ∀ e, post k (.error e)) {p : Broker α}
    (hp : Safe (traffic site E tables learn) allowed ok post k p) :
    Safe (traffic site E tables learn) allowed ok post k (instrument p) := by
  refine ⟨hok, fun s r s' _ _ => ?_⟩
  show Safe _ _ _ _ (learn s k .admitVerb r) (lift r >>= fun _ => p)
  rw [hlearn]
  exact safe_lift_bind herr r fun _ _ => hp

theorem safe_loadDoctype (name : String) (hok : ok k (.loadDoctype name))
    (hlearn : ∀ s r, learn s k (.loadDoctype name) r = k) (herr : ∀ e, post k (.error e))
    {f : DocTypeMeta → Broker α}
    (hf : ∀ m, site.metas name = some m → Safe (traffic site E tables learn) allowed ok post k (f m)) :
    Safe (traffic site E tables learn) allowed ok post k (loadDoctype name >>= f) := by
  refine ⟨hok, fun s r s' hans _ => ?_⟩
  show Safe _ _ _ _ (learn s k (.loadDoctype name) r) (lift r >>= f)
  rw [hlearn]
  exact safe_lift_bind herr r fun m hm => hf m (hans.2 m hm)

theorem safe_loadWorkflow (doctype : String) (hok : ok k (.loadWorkflow doctype))
    (hlearn : ∀ s r, learn s k (.loadWorkflow doctype) r = k) (herr : ∀ e, post k (.error e))
    {f : Option WorkflowDef → Broker α}
    (hf : Safe (traffic site E tables learn) allowed ok post k (f (site.workflows doctype))) :
    Safe (traffic site E tables learn) allowed ok post k (loadWorkflow doctype >>= f) := by
  refine ⟨hok, fun s r s' hans _ => ?_⟩
  show Safe _ _ _ _ (learn s k (.loadWorkflow doctype) r) (lift r >>= f)
  rw [hlearn]
  exact safe_lift_bind herr r fun wf hwf => hans.2 wf hwf ▸ hf

theorem safe_sqlAs (caller : Caller) (stmt : Statement) (herr : ∀ e, post k (.error e))
    {f : Json → Broker α}
    (hf : ∀ q : Query, q.stmt = stmt → ok k (.sqlAs caller q) ∧
      ∀ (s : Store) (r : Except BrokerError Json) (s' : Store),
        site.Answers E tables s (.sqlAs caller q) r s' → allowed s (.sqlAs caller q) r →
        Safe (traffic site E tables learn) allowed ok post (learn s k (.sqlAs caller q) r)
          (lift r >>= f)) :
    Safe (traffic site E tables learn) allowed ok post k (sqlAs caller stmt >>= f) := by
  rw [sqlAs]
  split
  · rename_i q hq
    exact hf q (stmt_of_compile hq)
  · exact herr _

end

/-! ### Stretches without a write -/

/-- Asks for metadata, hooks, notifications or one record. -/
def Request.Aside : Request → Prop
  | .sqlAs _ q => match q.stmt with | .record _ => True | _ => False
  | _ => True

theorem only_lift {α : Type} (P : Request → Prop) (r : Except BrokerError α) :
    (lift r).Only P := trivial

theorem only_recordForHook (caller : Caller) (m : DocTypeMeta) (key : String) :
    (recordForHook caller m key).Only Request.Aside := by
  refine Only.bind ?_ fun _ => trivial
  rw [sqlAs]
  split
  · rename_i q hq
    have haside : Request.Aside (.sqlAs caller q) := by
      rw [Request.Aside, stmt_of_compile hq]
      trivial
    exact ⟨haside, fun r => only_lift _ r⟩
  · trivial

theorem only_fireEdges (chain : HookChain) (rid doctype : String) (doc : Doc) (a b : Int)
    (edges : List (Int × HookClass)) :
    (fireEdges chain rid doctype doc a b edges).Only Request.Aside := by
  induction edges with
  | nil => trivial
  | cons e rest ih =>
      obtain ⟨target, hook⟩ := e
      rw [fireEdges]
      split
      · refine Only.bind (only_lift _ _) fun _ => ?_
        exact ⟨trivial, fun r => Only.bind (only_lift _ r) fun _ => ih⟩
      · exact ih

theorem only_beforeInsert (chain : HookChain) (rid doctype : String) (doc : Doc) (op : WriteOp) :
    (beforeInsert chain rid doctype doc op).Only Request.Aside := by
  cases op with
  | create => exact Only.bind (only_lift _ _) fun _ => ⟨trivial, fun r => only_lift _ r⟩
  | update => trivial

/-! ### Playing verbs -/

/-- Serves a verb and creates nothing. -/
def Site.attend (site : Site) (E : Engine) (s : Store) (q : Request) : Answer q × Store :=
  match q with
  | .sqlAs caller q =>
      match q.stmt with
      | .create _ _ => (.error (.db "create"), s)
      | _ => site.serve E "" s (.sqlAs caller q)
  | q => site.serve E "" s q

/-- What is attended is answered, where tables store a write as it is. -/
theorem answers_attend (site : Site) (E : Engine) (s : Store) (q : Request) :
    site.Answers E .verbatim s q (site.attend E s q).1 (site.attend E s q).2 := by
  cases q with
  | loadDoctype name =>
      refine ⟨rfl, fun m hm => ?_⟩
      cases hmeta : site.metas name with
      | none => simp [Site.attend, Site.serve, hmeta] at hm
      | some m' =>
          simp only [Site.attend, Site.serve, hmeta] at hm
          rw [Except.ok.inj hm]
  | loadWorkflow doctype => exact ⟨rfl, fun wf hwf => Except.ok.inj hwf⟩
  | sqlAs caller q =>
      obtain ⟨stmt, text, htext⟩ := q
      cases hsign : site.signin caller with
      | error e => cases stmt <;> simp [Site.Answers, Site.Refuses, Site.attend, Site.serve, hsign]
      | ok auth =>
          cases stmt with
          | create table content => simp [Site.Answers, Site.Refuses, Site.attend]
          | update rid content =>
              simp only [Site.Answers, Site.attend, Site.serve, hsign, Site.exec]
              cases hfound : s.find rid with
              | none => exact Or.inl ⟨Or.inr ⟨rfl, trivial⟩, rfl⟩
              | some before => exact Or.inr ⟨auth, rfl, before, _, hfound, rfl, rfl, rfl⟩
          | select _ | aggregate _ | record _ =>
              refine Or.inr ⟨auth, hsign, ?_⟩
              simp [Site.Executes, Site.attend, Site.serve, hsign]
  | _ => rfl

end Frust.Kernel
