import Frust.Lib.Run
import Mathlib.Algebra.BigOperators.Group.List.Basic
import Mathlib.Tactic.Abel

/-!
# `Frust.Lib.Ledger`: totals kept by signed contributions

A store holds documents. A move takes one out, puts one in, or replaces one, and a total is
kept beside the store: every move subtracts the worth of what it takes out and adds the worth
of what it puts in. Where the worth of a document is a function of it, the total moves by as
much as the sum over the store does (`sum_of_moves`).

The worth may also depend on a view, which is another at every move. `Books` then remembers
with each document the view under which it was put in. The total is the sum over these as long
as every move takes out as much as was put in (`worth_of_steps`).
-/

set_option autoImplicit false

namespace Frust.Lib

/-- What a move takes out and puts in. -/
structure Move (D : Type*) where
  before : Option D
  after : Option D

namespace Move

variable {D V A : Type*} [AddCommGroup A]

/-- What a move adds to the total. -/
def gain (w : D → A) (m : Move D) : A := m.after.elim 0 w - m.before.elim 0 w

/-- A move leads from a store to another. -/
def Leads (held : List D) (m : Move D) (held' : List D) : Prop :=
  ∃ rest, held.Perm (m.before.toList ++ rest) ∧ held'.Perm (m.after.toList ++ rest)

theorem sum_toList (w : D → A) (d : Option D) : (d.toList.map w).sum = d.elim 0 w := by
  cases d with
  | none => rfl
  | some d => simp

theorem sum_of_leads (w : D → A) {held held' : List D} {m : Move D} (h : Leads held m held') :
    (held'.map w).sum = (held.map w).sum + m.gain w := by
  obtain ⟨rest, hbefore, hafter⟩ := h
  rw [(hbefore.map w).sum_eq, (hafter.map w).sum_eq, List.map_append, List.map_append,
    List.sum_append, List.sum_append, sum_toList, sum_toList]
  unfold gain
  abel

/-- A run of moves changes the sum over the store by what the moves add up to. -/
theorem sum_of_moves (w : D → A) {held held' : List D} {ms : List (Move D)}
    (h : Run Leads held ms held') :
    (held'.map w).sum = (held.map w).sum + (ms.map (gain w)).sum := by
  induction h with
  | nil => simp
  | snoc _ hstep ih =>
      rw [sum_of_leads w hstep, ih, List.map_append, List.sum_append]
      simp only [List.map_cons, List.map_nil, List.sum_cons, List.sum_nil]
      abel

/-! ### Views -/

/-- A move under a view: what is put in is booked with the view. -/
def Books (held : List (D × V)) (e : V × Move D) (held' : List (D × V)) : Prop :=
  ∃ out rest, out.map Prod.fst = e.2.before.toList ∧ held.Perm (out ++ rest) ∧
    held'.Perm (e.2.after.toList.map (·, e.1) ++ rest)

/-- The sum over a store of what its documents were worth when they were put in. -/
def worth (w : V → D → A) (held : List (D × V)) : A := (held.map fun p => w p.2 p.1).sum

/-- What a move takes out is worth as much as when it was put in. -/
def Undoes (w : V → D → A) (held : List (D × V)) (e : V × Move D) : Prop :=
  ∀ p ∈ held, e.2.before = some p.1 → w p.2 p.1 = w e.1 p.1

theorem worth_of_books (w : V → D → A) {held held' : List (D × V)} {e : V × Move D}
    (h : Books held e held') (hundo : Undoes w held e) :
    worth w held' = worth w held + e.2.gain (w e.1) := by
  obtain ⟨out, rest, hout, hbefore, hafter⟩ := h
  -- At most one entry is taken out, at the value that the move undoes.
  have htaken : (out.map fun p => w p.2 p.1).sum = e.2.before.elim 0 (w e.1) := by
    cases hb : e.2.before with
    | none =>
        rw [hb] at hout
        rw [List.map_eq_nil_iff.mp hout]
        rfl
    | some d =>
        rw [hb] at hout
        obtain ⟨p, hp, hpd⟩ : ∃ p, out = [p] ∧ p.1 = d := by
          cases out with
          | nil => cases hout
          | cons p rest =>
              simp only [Option.toList_some, List.map_cons, List.cons.injEq,
                List.map_eq_nil_iff] at hout
              exact ⟨p, by rw [hout.2], hout.1⟩
        subst hp hpd
        have hin : p ∈ held := hbefore.mem_iff.mpr (by simp)
        simpa using hundo p hin hb
  -- What is put in has the value of the move.
  have hput : ((e.2.after.toList.map (·, e.1)).map fun p => w p.2 p.1).sum
      = e.2.after.elim 0 (w e.1) := by
    rw [List.map_map]
    exact sum_toList (w e.1) e.2.after
  unfold worth gain
  rw [(hbefore.map _).sum_eq, (hafter.map _).sum_eq, List.map_append, List.map_append,
    List.sum_append, List.sum_append, htaken, hput]
  abel

/-- A run of moves that undo what they take out changes the booked sum by what the moves add up
to. -/
theorem worth_of_steps (w : V → D → A) {held held' : List (D × V)} {es : List (V × Move D)}
    (h : Run.Steps Books held (fun held e _ => Undoes w held e) es held') :
    worth w held' = worth w held + (es.map fun e => e.2.gain (w e.1)).sum := by
  induction h with
  | nil => simp
  | snoc _ hstep ih =>
      rw [worth_of_books w hstep.1 hstep.2, ih, List.map_append, List.sum_append]
      simp only [List.map_cons, List.map_nil, List.sum_cons, List.sum_nil]
      abel

/-- A store in another order is booked in that order. -/
theorem exists_map_fst {held : List (D × V)} {live : List D} (h : (held.map Prod.fst).Perm live) :
    ∃ held', held'.map Prod.fst = live ∧ held.Perm held' := by
  have hself : List.Forall₂ (fun d (p : D × V) => p.1 = d) (held.map Prod.fst) held := by
    rw [List.forall₂_map_left_iff]
    exact List.forall₂_same.mpr fun p _ => rfl
  obtain ⟨held', hmap, hperm⟩ := List.perm_comp_forall₂ h.symm hself
  refine ⟨held', ?_, hperm.symm⟩
  clear hperm hself h
  induction hmap with
  | nil => rfl
  | cons hd _ ih => rw [List.map_cons, hd, ih]

/-- Moves can be booked under any views. -/
theorem exists_books {live live' : List D} {es : List (V × Move D)} {held : List (D × V)}
    (h : Run Leads live (es.map Prod.snd) live') (hheld : (held.map Prod.fst).Perm live) :
    ∃ held', Run Books held es held' ∧ (held'.map Prod.fst).Perm live' := by
  induction es using List.reverseRecOn generalizing live' with
  | nil =>
      cases Run.nil_inv h
      exact ⟨held, .nil, hheld⟩
  | append_singleton es e ih =>
      rw [List.map_append] at h
      obtain ⟨mid, hrun, rest, hbefore, hafter⟩ := Run.snoc_inv h
      obtain ⟨held₁, hbooks, hperm⟩ := ih hrun
      -- what the move takes out is booked
      obtain ⟨held₂, hmap, hperm₂⟩ := exists_map_fst (hperm.trans hbefore)
      obtain ⟨out, left, rfl, hout, hleft⟩ := List.map_eq_append_iff.mp hmap
      refine ⟨e.2.after.toList.map (·, e.1) ++ left, hbooks.snoc ⟨out, left, hout, hperm₂, .rfl⟩, ?_⟩
      rw [List.map_append, hleft, List.map_map]
      have hput : e.2.after.toList.map (Prod.fst ∘ (·, e.1)) = e.2.after.toList :=
        List.map_id _
      rw [hput]
      exact hafter.symm

end Move

end Frust.Lib
