import Frust.Kernel.Aggregates
import Frust.Proofs.Kernel.Decimal

/-!
# `Frust.Proofs.Kernel.Rollup`: the sums of a batch

What the database describes in a feed is what a worker decodes (`decodeFrom_json`). The sums of
a batch, slot by slot, are sums of decimals (`slot_sums`). Where the amounts add up without
leaving the range of the mantissa, they are worth what the changes of the batch gain
(`sum_signedAmounts`). The entries of a batch are those that are pending (`pending_of_batch`).
-/

set_option autoImplicit false

namespace Frust.Kernel

open Frust.Lib Frust.Lib.Prog

namespace Aggregates

open Feed RollupState

/-! ### Decoding -/

/-- What the database describes is what is decoded. -/
theorem decodeChange_json (c : FeedChange) : decodeChange c.json = .ok c.change := by
  cases c with
  | defineTable info => rfl
  | create fields => rfl
  | update current ops before undo =>
      show (applyUndo current ops >>= fun before =>
        Except.ok (some (⟨some before, some current⟩ : Change))) = _
      rw [undo]
      rfl
  | delete id original => rfl

theorem mapM_decodeChange (cs : List FeedChange) :
    (cs.map FeedChange.json).mapM decodeChange = .ok (cs.map FeedChange.change) := by
  induction cs with
  | nil => rfl
  | cons c cs ih =>
      rw [List.map_cons, List.mapM_cons, decodeChange_json, ih]
      rfl

theorem asU64_natCast {n : Nat} (h : n < 2 ^ 64) : asU64 (.int n) = some n := if_pos h

theorem get_versionstamp (e : FeedEntry) :
    e.json.get "versionstamp" = some (.int e.versionstamp) := by
  simp [FeedEntry.json, Json.get]

theorem get_changes (e : FeedEntry) :
    e.json.get "changes" = some (.array (e.changes.map FeedChange.json)) := by
  simp [FeedEntry.json, Json.get, List.lookup_cons]

theorem moves_eq (e : FeedEntry) : (e.changes.map FeedChange.change).reduceOption = e.moves := by
  unfold List.reduceOption FeedEntry.moves
  rw [List.filterMap_map]
  rfl

theorem decodeFrom_cons (e : FeedEntry) (es : List Json) (vs : Nat) (out : List Change) :
    decodeFrom (e.json :: es) vs out = decodeFrom es e.versionstamp (out ++ e.moves) := by
  have hvs : ((e.json.get "versionstamp").bind asU64).getD vs = e.versionstamp := by
    rw [get_versionstamp, Option.bind_some, asU64_natCast (e.bounded.trans (by norm_num))]
    rfl
  have hchanges : ((e.json.get "changes").elim [] Json.rows).mapM decodeChange
      = .ok (e.changes.map FeedChange.change) := by
    rw [get_changes]
    exact mapM_decodeChange e.changes
  rw [decodeFrom, hvs, hchanges, ← moves_eq]
  rfl

theorem decodeFrom_json (es : List FeedEntry) (vs : Nat) (out : List Change) :
    decodeFrom (es.map FeedEntry.json) vs out
      = .ok (out ++ es.flatMap FeedEntry.moves, (es.getLast?.map FeedEntry.versionstamp).getD vs) := by
  induction es generalizing vs out with
  | nil => simp [decodeFrom]
  | cons e es ih =>
      rw [List.map_cons, decodeFrom_cons, ih, List.flatMap_cons, List.append_assoc]
      cases es with
      | nil => rfl
      | cons e' es => simp [List.getLast?_cons]

/-! ### Slots -/

/-- Adds a signed amount to a slot. -/
def addSlot (o : Option Decimal) (e : Bool × Decimal) : Option Decimal :=
  some ((o.getD Decimal.zero).add (signed e.1 e.2))

/-- The amounts of a contribution in a slot. -/
def slotAmounts (c : Contribution) (k f : String) : List Decimal :=
  (c.filter (·.1 = k)).flatMap fun e => (e.2.filter (·.1 = f)).map (·.2)

theorem lookup_addFields (subtract : Bool) (fields : List (String × Decimal)) (f : String)
    (bucket : List (String × Decimal)) :
    (fields.foldl (fun bucket a => alter a.1 Decimal.zero (·.add (signed subtract a.2)) bucket)
      bucket).lookup f
      = ((fields.filter (·.1 = f)).map fun a => (subtract, a.2)).foldl addSlot (bucket.lookup f) := by
  induction fields generalizing bucket with
  | nil => rfl
  | cons a fields ih =>
      rw [List.foldl_cons, ih]
      by_cases hf : a.1 = f
      · subst hf
        rw [lookup_alter_self]
        simp [addSlot]
      · rw [lookup_alter_ne (Ne.symm hf)]
        simp [hf]

theorem slot_addTo (subtract : Bool) (acc c : Contribution) (k f : String) :
    slot (addTo subtract acc c) k f
      = ((slotAmounts c k f).map (subtract, ·)).foldl addSlot (slot acc k f) := by
  induction c generalizing acc with
  | nil => rfl
  | cons e c ih =>
      show slot (addTo subtract (alter e.1 [] _ acc) c) k f = _
      rw [ih]
      by_cases hk : e.1 = k
      · subst hk
        have hbucket : (((acc.lookup e.1).getD []).lookup f) = slot acc e.1 f := by
          unfold slot
          cases acc.lookup e.1 <;> rfl
        unfold slot at hbucket ⊢
        rw [lookup_alter_self, Option.bind_some, lookup_addFields, hbucket]
        simp [slotAmounts, List.foldl_append, Function.comp_def]
      · unfold slot
        rw [lookup_alter_ne (Ne.symm hk)]
        simp [slotAmounts, hk]

/-! ### Sums -/

/-- The sums of a batch, where every document's contribution is known. -/
def sums (c : Json → Contribution) (docs : List (Json × Bool)) (acc : Contribution) :
    Contribution := docs.foldl (fun acc d => addTo d.2 acc (c d.1)) acc

/-- The signed amounts of a batch in a slot. -/
def signedAmounts (c : Json → Contribution) (docs : List (Json × Bool)) (k f : String) :
    List (Bool × Decimal) := docs.flatMap fun d => (slotAmounts (c d.1) k f).map (d.2, ·)

/-- What a signed amount stands for. -/
def amountValue (e : Bool × Decimal) : ℚ := if e.1 then -e.2.value else e.2.value

/-- Amounts that are added to a number of a scale, one after the other: all of them, and all the
sums in between, have a mantissa in range. -/
def AddsUp : ℚ → Nat → List (Bool × Decimal) → Prop
  | _, _, [] => True
  | q, scale, e :: rest =>
      (Decimal.Room (max scale e.2.scale) q ∧ Decimal.Room (max scale e.2.scale) (amountValue e) ∧
        Decimal.Room (max scale e.2.scale) (q + amountValue e)) ∧
      AddsUp (q + amountValue e) (max scale e.2.scale) rest

/-- What a contribution is worth, by key and field. -/
def worthOf (c : Contribution) (k f : String) : ℚ := ((slotAmounts c k f).map Decimal.value).sum

theorem slot_sums (c : Json → Contribution) (docs : List (Json × Bool)) (acc : Contribution)
    (k f : String) :
    slot (sums c docs acc) k f = (signedAmounts c docs k f).foldl addSlot (slot acc k f) := by
  induction docs generalizing acc with
  | nil => rfl
  | cons d docs ih =>
      show slot (sums c docs (addTo d.2 acc (c d.1))) k f = _
      rw [ih, slot_addTo]
      unfold signedAmounts
      rw [List.flatMap_cons, List.foldl_append]

theorem signed_value {e : Bool × Decimal} {scale : Nat} (hle : e.2.scale ≤ scale)
    (h : Decimal.Room scale (amountValue e)) : (signed e.1 e.2).value = amountValue e := by
  unfold signed amountValue at *
  split
  · rename_i hneg
    rw [if_pos hneg] at h
    exact Decimal.neg_value hle h
  · rfl

theorem signed_scale (e : Bool × Decimal) : (signed e.1 e.2).scale = e.2.scale := by
  unfold signed
  split
  · rfl
  · rfl

/-- A sum of decimals is exact where the amounts add up. -/
theorem foldl_addSlot {es : List (Bool × Decimal)} {o : Option Decimal}
    (h : AddsUp (o.getD Decimal.zero).value (o.getD Decimal.zero).scale es) :
    ((es.foldl addSlot o).getD Decimal.zero).value
      = (o.getD Decimal.zero).value + (es.map amountValue).sum := by
  induction es generalizing o with
  | nil => simp
  | cons e es ih =>
      obtain ⟨⟨hq, hamount, hsum⟩, hrest⟩ := h
      have hvalue := signed_value (le_max_right _ _) hamount
      have hscale := signed_scale e
      have hadd : ((o.getD Decimal.zero).add (signed e.1 e.2)).value
          = (o.getD Decimal.zero).value + amountValue e := by
        rw [← hvalue]
        refine Decimal.add_value ?_ ?_ ?_
        · rw [hscale]
          exact hq
        · rw [hscale, hvalue]
          exact hamount
        · rw [hscale, hvalue]
          exact hsum
      have hrest' : AddsUp ((addSlot o e).getD Decimal.zero).value
          ((addSlot o e).getD Decimal.zero).scale es := by
        show AddsUp ((o.getD Decimal.zero).add (signed e.1 e.2)).value
          (max (o.getD Decimal.zero).scale (signed e.1 e.2).scale) es
        rw [hadd, hscale]
        exact hrest
      rw [List.foldl_cons, ih hrest', List.map_cons, List.sum_cons, ← add_assoc]
      congr 1

theorem sum_amountValue (subtract : Bool) (amounts : List Decimal) :
    ((amounts.map (subtract, ·)).map amountValue).sum
      = if subtract then -(amounts.map Decimal.value).sum else (amounts.map Decimal.value).sum := by
  induction amounts with
  | nil => simp
  | cons a amounts ih =>
      simp only [List.map_cons, List.sum_cons]
      rw [ih]
      cases subtract
      · rfl
      · simp only [amountValue, if_true]
        ring

theorem sum_signedAmounts_doc (c : Json → Contribution) (doc : Option Json) (subtract : Bool)
    (k f : String) :
    ((signedAmounts c (doc.toList.map (·, subtract)) k f).map amountValue).sum
      = if subtract then -doc.elim 0 (fun d => worthOf (c d)) k f
        else doc.elim 0 (fun d => worthOf (c d)) k f := by
  cases doc with
  | none => cases subtract <;> simp [signedAmounts]
  | some d =>
      have hone : signedAmounts c ((some d).toList.map (·, subtract)) k f
          = (slotAmounts (c d) k f).map (subtract, ·) := by simp [signedAmounts]
      rw [hone, sum_amountValue]
      rfl

/-- The amounts of a batch are worth what its changes gain. -/
theorem sum_signedAmounts (c : Json → Contribution) (ms : List Change) (k f : String) :
    ((signedAmounts c (docsOf ms) k f).map amountValue).sum
      = (ms.map (Move.gain fun d => worthOf (c d))).sum k f := by
  induction ms with
  | nil => rfl
  | cons m ms ih =>
      have hdocs : docsOf (m :: ms) = (m.before.toList.map (·, true) ++ m.after.toList.map (·, false))
          ++ docsOf ms := rfl
      have happend : ∀ xs ys, signedAmounts c (xs ++ ys) k f
          = signedAmounts c xs k f ++ signedAmounts c ys k f := fun xs ys => List.flatMap_append
      have hgain : m.gain (fun d => worthOf (c d)) k f
          = m.after.elim 0 (fun d => worthOf (c d)) k f
            - m.before.elim 0 (fun d => worthOf (c d)) k f := rfl
      rw [hdocs, happend, happend, List.map_append, List.map_append, List.sum_append,
        List.sum_append, sum_signedAmounts_doc, sum_signedAmounts_doc, ih, List.map_cons,
        List.sum_cons, Pi.add_apply, Pi.add_apply, hgain, if_pos rfl, if_neg (by decide)]
      ring

/-! ### The feed -/

section

variable {l new : List FeedEntry} {a b n : Nat}

/-- In a feed in order, the entries up to `b` are those up to `a` and then the rest. -/
theorem filter_split (h : l.Pairwise fun e e' => e.versionstamp < e'.versionstamp) (hab : a ≤ b) :
    l.filter (fun e => e.versionstamp ≤ a)
        ++ l.filter (fun e => a < e.versionstamp ∧ e.versionstamp ≤ b)
      = l.filter fun e => e.versionstamp ≤ b := by
  induction l with
  | nil => rfl
  | cons e l ih =>
      obtain ⟨hfirst, hrest⟩ := List.pairwise_cons.mp h
      by_cases ha : e.versionstamp ≤ a
      · have hb : e.versionstamp ≤ b := by omega
        have hmid : ¬ (a < e.versionstamp ∧ e.versionstamp ≤ b) := by omega
        rw [List.filter_cons_of_pos (by simpa using ha),
          List.filter_cons_of_neg (by simpa using hmid), List.filter_cons_of_pos (by simpa using hb),
          List.cons_append, ih hrest]
      · -- everything after is later
        have hnone : l.filter (fun e => e.versionstamp ≤ a) = [] := by
          rw [List.filter_eq_nil_iff]
          intro e' he'
          have := hfirst e' he'
          simp
          omega
        have hsame : ∀ e' ∈ e :: l,
            decide (a < e'.versionstamp ∧ e'.versionstamp ≤ b) = decide (e'.versionstamp ≤ b) := by
          intro e' he'
          have hlate : a < e'.versionstamp := by
            rcases List.mem_cons.mp he' with rfl | he'
            · omega
            · have := hfirst e' he'
              omega
          simp [hlate]
        rw [List.filter_cons_of_neg (by simpa using ha), hnone, List.nil_append,
          List.filter_congr hsame]

/-- In a feed in order, the entries up to the last of a prefix are the prefix. -/
theorem filter_take {e : FeedEntry} (h : l.Pairwise fun e e' => e.versionstamp < e'.versionstamp)
    (he : (l.take n).getLast? = some e) :
    l.filter (fun e' => e'.versionstamp ≤ e.versionstamp) = l.take n := by
  have hsplit := List.take_append_drop n l
  rw [← hsplit] at h
  obtain ⟨htake, _, hcross⟩ := List.pairwise_append.mp h
  have hmem : e ∈ l.take n := List.mem_of_getLast? he
  have hkeep : ∀ e' ∈ l.take n, e'.versionstamp ≤ e.versionstamp := by
    intro e' he'
    obtain ⟨init, hinit⟩ := List.getLast?_eq_some_iff.mp he
    rw [hinit] at he' htake
    rcases List.mem_append.mp he' with he' | he'
    · exact ((List.pairwise_append.mp htake).2.2 e' he' e (by simp)).le
    · rw [List.mem_singleton.mp he']
  have hlater : ∀ e' ∈ l.drop n, ¬ e'.versionstamp ≤ e.versionstamp := by
    intro e' he'
    have := hcross e hmem e' he'
    omega
  have hfilter : (l.take n ++ l.drop n).filter (fun e' => e'.versionstamp ≤ e.versionstamp)
      = l.take n := by
    rw [List.filter_append, List.filter_eq_self.mpr (by simpa using hkeep),
      List.filter_eq_nil_iff.mpr (by simpa using hlater), List.append_nil]
  rwa [hsplit] at hfilter

/-- Entries that come later are after every versionstamp of the feed. -/
theorem later_of_append (h : (l ++ new).Pairwise fun e e' => e.versionstamp < e'.versionstamp)
    (ha : a = 0 ∨ ∃ e ∈ l, e.versionstamp = a) {e' : FeedEntry} (he' : e' ∈ new) :
    a < e'.versionstamp := by
  rcases ha with rfl | ⟨e, he, rfl⟩
  · exact e'.pos
  · exact (List.pairwise_append.mp h).2.2 e he e' he'

end

theorem feed_ordered (s : RollupState) :
    s.feed.Pairwise fun e e' => e.versionstamp < e'.versionstamp := List.pairwise_map.mp s.ordered

/-- What is pending up to the end of a batch is the batch. -/
theorem pending_of_batch {s : RollupState} {limit : Nat} {e : FeedEntry}
    (he : (s.batch (s.at_ + 1) limit).getLast? = some e) :
    s.pending e.versionstamp = s.batch (s.at_ + 1) limit := by
  unfold batch at he ⊢
  rw [← filter_take ((feed_ordered s).filter _) he]
  unfold pending
  rw [List.filter_filter]
  refine List.filter_congr fun e' _ => ?_
  simp [Nat.succ_le_iff, and_comm]

end Aggregates

end Frust.Kernel
