import Frust.Kernel.Keyguard
import Frust.Lib.Occurs
import Frust.Proofs.Kernel.RootQuery
import Frust.Proofs.Rust.Str

/-!
# `Frust.Proofs.Kernel.Keyguard`: which answers pass the guard

A store has refused the forged token when it answers with the status 401. The guard asks the text of
the error instead, where the number or the word may stand for other reasons (`Misread`).
`storeAcceptsKey_iff` says which answers are taken for a refusal, and `failsClosed_iff` that the guard
fails closed exactly where the deciding answer is none of the misread ones.
-/

set_option autoImplicit false

namespace Frust.Kernel

open Frust.Lib.Occurs Frust.Rust

/-! ### Texts that read as a refusal -/

/-- A text is found on one side of a character that it does not have. -/
theorem contains_stop {pattern : String} {c : Char} (hne : pattern.toList ≠ [])
    (hc : c ∉ pattern.toList) (a b : String) :
    Str.contains pattern (a ++ String.ofList [c] ++ b)
      = (Str.contains pattern a || Str.contains pattern b) := by
  rw [Bool.eq_iff_iff, Bool.or_eq_true, Str.contains_iff, Str.contains_iff, Str.contains_iff,
    String.toList_append, String.toList_append, String.toList_ofList, List.append_assoc]
  exact infix_append_cons_iff hne hc

/-- So is a refusal, of a character that stands for itself in both cases. -/
theorem readsAsRefusal_stop {c : Char} (hlower : c.toLower = c) (h₁ : c ∉ "401".toList)
    (h₂ : c ∉ "unauthor".toList) (a b : String) :
    readsAsRefusal (a ++ String.ofList [c] ++ b) = (readsAsRefusal a || readsAsRefusal b) := by
  have hstop : Str.toAsciiLowercase (String.ofList [c]) = String.ofList [c] := by
    unfold Str.toAsciiLowercase
    rw [String.toList_ofList, List.map_singleton, hlower]
  unfold readsAsRefusal
  rw [Str.toAsciiLowercase_append, Str.toAsciiLowercase_append, hstop, contains_stop (by decide) h₁,
    contains_stop (by decide) h₂]
  simp only [Bool.or_assoc, Bool.or_left_comm]

/-- A prefix that ends in a blank and does not read as a refusal changes nothing. -/
theorem readsAsRefusal_blank {pre : String} (h : readsAsRefusal pre = false) (text : String) :
    readsAsRefusal (pre ++ " " ++ text) = readsAsRefusal text := by
  have hstop := readsAsRefusal_stop (c := ' ') (by decide) (by decide) (by decide) pre text
  rw [h, Bool.false_or] at hstop
  exact hstop

/-- Of the statuses, one reads as a refusal. -/
theorem readsAsRefusal_code (status : HttpStatus) :
    readsAsRefusal (toString status.code) = decide (status.code = 401) := by
  have hdigits : (toString status.code).toList = Nat.toDigits 10 status.code := by
    rw [Nat.toString_eq_ofList_toDigits, String.toList_ofList]
  have hshort : (toString status.code).toList.length ≤ 3 := by
    rw [hdigits]
    exact (Nat.length_toDigits_le_iff (by decide) (by decide)).mpr status.three.2
  -- the number is as long as the three digits, and the word is longer
  have hword : Str.contains "unauthor" (Str.toAsciiLowercase (toString status.code)) = false := by
    rw [Bool.eq_false_iff]
    intro h
    have hlen := (Str.contains_iff.mp h).length_le
    have hlower : (Str.toAsciiLowercase (toString status.code)).toList.length
        = (toString status.code).toList.length := by
      unfold Str.toAsciiLowercase
      rw [String.toList_ofList, List.length_map]
    rw [hlower] at hlen
    exact absurd (hlen.trans hshort) (by decide)
  have hnumber : Str.contains "401" (toString status.code) = decide (status.code = 401) := by
    rw [Bool.eq_iff_iff, Str.contains_iff, decide_eq_true_iff]
    constructor
    · intro h
      have heq := h.eq_of_length (Nat.le_antisymm h.length_le hshort)
      rw [hdigits] at heq
      have hvalue := congrArg (fun cs => Nat.ofDigitChars 10 cs 0) heq
      simp only [Nat.ofDigitChars_ten_toDigits] at hvalue
      exact hvalue.symm
    · intro h
      rw [h]
      exact List.infix_rfl
  unfold readsAsRefusal
  rw [hnumber, hword, Bool.or_false]

/-- In the error of a status, the status and the message are read apart. -/
theorem readsAsRefusal_http (status : HttpStatus) (message : String) :
    readsAsRefusal ("http " ++ toString status.code ++ ": " ++ message)
      = (decide (status.code = 401) || readsAsRefusal message) := by
  have hsplit : "http " ++ toString status.code ++ ": " ++ message
      = "http" ++ " " ++ (toString status.code ++ ":" ++ ("" ++ " " ++ message)) := by
    simp only [String.append_assoc]
    rfl
  have hcolon := readsAsRefusal_stop (c := ':') (by decide) (by decide) (by decide)
    (toString status.code) ("" ++ " " ++ message)
  rw [readsAsRefusal_blank (by decide), readsAsRefusal_code] at hcolon
  rw [hsplit, readsAsRefusal_blank (by decide)]
  exact hcolon

/-! ### One answer -/

/-- The store refused the token itself. -/
def HttpReply.Refused : HttpReply → Prop
  | .response status _ => status.code = 401
  | _ => False

/-- The error of the statements that is reported: the first that is not about another one. -/
def reportedError (ss : List StatementReply) : Option String :=
  let errors := ss.filterMap (·.error?)
  (errors.find? fun e => !Str.contains "not executed due to" e).or errors.head?

/-- A statement's error is taken for a refusal: the caller may not, or the text reads so. -/
def RefusalText (raw : String) : Prop :=
  Str.contains "Not enough permissions" raw = true ∨
    Str.contains "FRUST:E_IDENTITY_UNRESOLVED" raw = false ∧ readsAsRefusal raw = true

/-- JSON that came with a success is taken for a refusal. -/
def MisreadBody : Json → Prop
  | .array items => ∃ raw, reportedError (items.map statementReply) = some raw ∧ RefusalText raw
  | other => readsAsRefusal other.text = true

/-- An answer that is no refusal of the token, and whose text is taken for one. -/
def HttpReply.Misread (parse : String → Except String Json) : HttpReply → Prop
  | .transport text => readsAsRefusal text = true
  | .unreadable _ text => readsAsRefusal text = true
  | .response status body =>
      if status.isSuccess = true then
        match parse body with
        | .error e => readsAsRefusal e = true
        | .ok v => MisreadBody v
      else status.code ≠ 401 ∧ readsAsRefusal (surrealMessageOf parse body) = true

section

variable {parse : String → Except String Json}

/-- The guard's reading of an error by its text. -/
theorem storeAcceptsKey_db (detail : String) :
    storeAcceptsKey (.error (.db detail)) = .ok false ↔ readsAsRefusal detail = true := by
  unfold storeAcceptsKey
  by_cases h : readsAsRefusal detail = true
  · simp [h]
  · simp [h]

/-- The answer, over the error that is reported. -/
theorem answer_statements (ss : List StatementReply) : (SqlReply.statements ss).answer =
    match reportedError ss with
    | some raw =>
        if Str.contains "Not enough permissions" raw then .error (.permissionDenied raw)
        else if Str.contains "FRUST:E_IDENTITY_UNRESOLVED" raw then .error .identityUnresolved
        else .error (.db raw)
    | none =>
        match ss.getLast? with
        | some (.ok result) => .ok result
        | _ => .ok .null :=
  rfl

/-- Statements are taken for a refusal by the error that is reported of them. -/
theorem storeAcceptsKey_statements (ss : List StatementReply) :
    storeAcceptsKey (SqlReply.statements ss).answer = .ok false ↔
      ∃ raw, reportedError ss = some raw ∧ RefusalText raw := by
  rw [answer_statements]
  cases reportedError ss with
  | none =>
      simp only [reduceCtorEq, false_and, exists_false, iff_false]
      split <;> exact fun h => by cases h
  | some raw =>
      simp only [Option.some.injEq, exists_eq_left', RefusalText]
      by_cases hperm : Str.contains "Not enough permissions" raw = true
      · rw [if_pos hperm]
        exact ⟨fun _ => .inl hperm, fun _ => rfl⟩
      · rw [if_neg hperm]
        by_cases hident : Str.contains "FRUST:E_IDENTITY_UNRESOLVED" raw = true
        · simp [hident, hperm, storeAcceptsKey]
        · rw [if_neg hident, storeAcceptsKey_db]
          simp [hident, hperm]

/-- JSON that came with a success, as it is answered. -/
def bodyReply : Json → SqlReply
  | .array items => .statements (items.map statementReply)
  | other => .other other.text

theorem storeAcceptsKey_body (v : Json) :
    storeAcceptsKey (bodyReply v).answer = .ok false ↔ MisreadBody v := by
  have hother (text : String) :
      storeAcceptsKey (SqlReply.other text).answer = .ok false ↔ readsAsRefusal text = true := by
    show storeAcceptsKey (.error (.db ("unexpected response:" ++ " " ++ text))) = _ ↔ _
    rw [storeAcceptsKey_db, readsAsRefusal_blank (by decide)]
  cases v with
  | array items => exact storeAcceptsKey_statements _
  | null => exact hother _
  | bool b => exact hother _
  | int i => exact hother _
  | float text => exact hother _
  | string s => exact hother _
  | object entries => exact hother _

theorem sqlReply_response (status : HttpStatus) (body : String) :
    (HttpReply.response status body).sqlReply parse =
      if status.isSuccess = true then
        match parse body with
        | .error e => .failed ("parse: " ++ e)
        | .ok v => bodyReply v
      else .failed ("http " ++ toString status.code ++ ": " ++ surrealMessageOf parse body) := by
  unfold HttpReply.sqlReply HttpReply.readJson
  by_cases h : status.isSuccess = true
  · simp only [h, Bool.not_true, Bool.false_eq_true, if_false, if_true]
    cases parse body with
    | error e => rfl
    | ok v => cases v <;> rfl
  · simp [h]

/-- A status of a success is another one. -/
theorem HttpStatus.ne_of_isSuccess {status : HttpStatus} (h : status.isSuccess = true) :
    status.code ≠ 401 := by
  intro hcode
  unfold HttpStatus.isSuccess at h
  rw [hcode] at h
  exact absurd h (by decide)

/-- A refusal of the token is not misread. -/
theorem HttpReply.Misread.not_refused {r : HttpReply} (h : r.Misread parse) : ¬ r.Refused := by
  cases r with
  | transport text => exact id
  | unreadable status text => exact id
  | response status body =>
      intro hcode
      have hsuccess : ¬ status.isSuccess = true := fun hs => HttpStatus.ne_of_isSuccess hs hcode
      simp only [HttpReply.Misread, if_neg hsuccess] at h
      exact h.1 hcode

/-- The answers that are taken for a refusal are the refusals and the misread ones. -/
theorem storeAcceptsKey_iff (r : HttpReply) :
    storeAcceptsKey (r.sqlReply parse).answer = .ok false ↔ r.Refused ∨ r.Misread parse := by
  cases r with
  | transport text =>
      show storeAcceptsKey (.error (.db ("transport:" ++ " " ++ text))) = _ ↔ False ∨ _
      rw [storeAcceptsKey_db, readsAsRefusal_blank (by decide), false_or]
      rfl
  | unreadable status text =>
      show storeAcceptsKey (.error (.db ("read body:" ++ " " ++ text))) = _ ↔ False ∨ _
      rw [storeAcceptsKey_db, readsAsRefusal_blank (by decide), false_or]
      rfl
  | response status body =>
      rw [sqlReply_response]
      show _ ↔ status.code = 401 ∨ _
      by_cases hsuccess : status.isSuccess = true
      · rw [if_pos hsuccess]
        have hcode := HttpStatus.ne_of_isSuccess hsuccess
        simp only [hcode, HttpReply.Misread, if_pos hsuccess, false_or]
        cases parse body with
        | error e =>
            show storeAcceptsKey (.error (.db ("parse:" ++ " " ++ e))) = _ ↔ _
            rw [storeAcceptsKey_db, readsAsRefusal_blank (by decide)]
        | ok v => exact storeAcceptsKey_body v
      · rw [if_neg hsuccess]
        simp only [HttpReply.Misread, if_neg hsuccess]
        show storeAcceptsKey (.error (.db _)) = _ ↔ _
        rw [storeAcceptsKey_db, readsAsRefusal_http, Bool.or_eq_true, decide_eq_true_iff]
        by_cases hcode : status.code = 401
        · simp [hcode]
        · simp [hcode]

/-! ### The sends of a probe -/

variable {replies : Nat → SqlReply}

/-- The first answer without a conflict is the last, where the sends last for it. -/
theorem sqlWithAuthInner_first {left n j : Nat} (hj : j ≤ left)
    (hbefore : ∀ k < j, (replies (n + k)).conflicts = true)
    (hdone : (replies (n + j)).conflicts = false) :
    sqlWithAuthInner replies left n = ((replies (n + j)).answer, n + j + 1) := by
  induction j generalizing left n with
  | zero => exact sqlWithAuthInner_done hdone
  | succ j ih =>
      obtain ⟨left, rfl⟩ : ∃ m, left = m + 1 := ⟨left - 1, by omega⟩
      have hfirst : (replies n).conflicts = true := hbefore 0 (by omega)
      rw [sqlWithAuthInner_conflict hfirst]
      have hnext : ∀ k < j, (replies (n + 1 + k)).conflicts = true := by
        intro k hk
        have h := hbefore (k + 1) (by omega)
        rwa [show n + (k + 1) = n + 1 + k by omega] at h
      rw [show n + (j + 1) = n + 1 + j by omega] at hdone ⊢
      exact ih (by omega) hnext hdone

/-- Where every answer has a conflict, the retries are used up. -/
theorem sqlWithAuthInner_exhausted {left n : Nat}
    (h : ∀ k ≤ left, (replies (n + k)).conflicts = true) :
    (sqlWithAuthInner replies left n).1 = .error (.writeConflictExhausted (conflictRetries + 1)) := by
  induction left generalizing n with
  | zero =>
      have hconflict := h 0 (Nat.le_refl 0)
      rw [Nat.add_zero] at hconflict
      rw [sqlWithAuthInner, if_pos hconflict]
  | succ left ih =>
      have hfirst : (replies n).conflicts = true := h 0 (by omega)
      rw [sqlWithAuthInner_conflict hfirst]
      refine ih fun k hk => ?_
      have hnext := h (k + 1) (by omega)
      rwa [show n + (k + 1) = n + 1 + k by omega] at hnext

end

/-! ### The guard -/

/-- How many times the query is sent. -/
def probeSends (parse : String → Except String Json) (replies : Nat → HttpReply) : Nat :=
  (sqlWithAuthInner (fun n => (replies n).sqlReply parse) conflictRetries 0).2

/-- The guard lets a store pass only where its last answer refused the token. -/
def FailsClosed (access : String) (parse : String → Except String Json)
    (replies : Nat → HttpReply) : Prop :=
  assertAccessKeyIsNotRedacted access parse replies = .ok () →
    (replies (probeSends parse replies - 1)).Refused

/-- The answer that decides: the first without a conflict, within the sends there are. -/
def Decides (parse : String → Except String Json) (replies : Nat → HttpReply) (n : Nat) : Prop :=
  n ≤ conflictRetries ∧ (∀ k < n, ((replies k).sqlReply parse).conflicts = true) ∧
    ((replies n).sqlReply parse).conflicts = false

section

variable {parse : String → Except String Json} {replies : Nat → HttpReply} (access : String)

theorem assert_eq_ok_iff :
    assertAccessKeyIsNotRedacted access parse replies = .ok () ↔
      storeAcceptsKey (sqlWithAuthInner (fun n => (replies n).sqlReply parse) conflictRetries 0).1
        = .ok false := by
  unfold assertAccessKeyIsNotRedacted
  split
  · rename_i e h
    rw [h]
    simp
  · rename_i h
    rw [h]
    simp
  · rename_i h
    rw [h]
    simp

/-- What the guard makes of the deciding answer. -/
theorem assert_of_decides {n : Nat} (h : Decides parse replies n) :
    (assertAccessKeyIsNotRedacted access parse replies = .ok () ↔
        (replies n).Refused ∨ (replies n).Misread parse) ∧
      probeSends parse replies = n + 1 := by
  obtain ⟨hn, hbefore, hdone⟩ := h
  have hrun : sqlWithAuthInner (fun n => (replies n).sqlReply parse) conflictRetries 0
      = (((replies n).sqlReply parse).answer, n + 1) := by
    have hfirst := @sqlWithAuthInner_first (fun n => (replies n).sqlReply parse) conflictRetries 0 n
      hn (by simpa using hbefore) (by simpa using hdone)
    simpa using hfirst
  refine ⟨?_, ?_⟩
  · rw [assert_eq_ok_iff, hrun]
    exact storeAcceptsKey_iff (replies n)
  · unfold probeSends
    rw [hrun]

/-- Without a deciding answer nothing passes. -/
theorem assert_of_not_decides (h : ∀ n, ¬ Decides parse replies n) :
    assertAccessKeyIsNotRedacted access parse replies ≠ .ok () := by
  have hall : ∀ n ≤ conflictRetries, ((replies n).sqlReply parse).conflicts = true := by
    intro n
    induction n using Nat.strong_induction_on with
    | _ n ih =>
        intro hn
        by_contra hno
        exact h n ⟨hn, fun k hk => ih k hk (by omega), Bool.eq_false_iff.mpr hno⟩
  rw [Ne, assert_eq_ok_iff, sqlWithAuthInner_exhausted (by simpa using hall)]
  intro hok
  cases hok

end

/-- The guard fails closed exactly where the deciding answer is not misread. -/
theorem failsClosed_iff (access : String) (parse : String → Except String Json)
    (replies : Nat → HttpReply) :
    FailsClosed access parse replies ↔
      ∀ n, Decides parse replies n → ¬ (replies n).Misread parse := by
  constructor
  · intro h n hn hmisread
    obtain ⟨hok, hsends⟩ := assert_of_decides access hn
    have hrefused := h (hok.mpr (.inr hmisread))
    rw [hsends] at hrefused
    exact hmisread.not_refused hrefused
  · intro h hok
    by_cases hsome : ∃ n, Decides parse replies n
    · obtain ⟨n, hn⟩ := hsome
      obtain ⟨hiff, hsends⟩ := assert_of_decides access hn
      rw [hsends]
      exact (hiff.mp hok).resolve_right (h n hn)
    · exact absurd hok (assert_of_not_decides access fun n hn => hsome ⟨n, hn⟩)

/-- A gateway that times out is taken for a store that refused the token. -/
theorem not_failsClosed_timeout :
    assertAccessKeyIsNotRedacted "account" (fun _ => .error "expected value at line 1 column 1")
        (fun _ => .response ⟨504, by decide⟩ "no answer within 4010 ms") = .ok () ∧
      ¬ FailsClosed "account" (fun _ => .error "expected value at line 1 column 1")
        (fun _ => .response ⟨504, by decide⟩ "no answer within 4010 ms") := by
  have hok : assertAccessKeyIsNotRedacted "account"
      (fun _ => .error "expected value at line 1 column 1")
      (fun _ => .response ⟨504, by decide⟩ "no answer within 4010 ms") = .ok () := by
    decide +kernel
  exact ⟨hok, fun h => absurd (show 504 = 401 from h hok) (by decide)⟩

end Frust.Kernel
