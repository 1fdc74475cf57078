import Mathlib.Data.List.Forall2

/-!
# `Frust.Lib.Lex`: words, quoted strings and symbols

A `Lexer` reads a text character by character. Outside of quotes a space or a symbol ends a word,
and a quote opens a string, in which the escape character takes away the meaning of the one after
it. What ends a word wherever it is read is a separator (`Separates`), and a separator leaves the
lexer as at the start of a text: so the lexemes of two texts with a separator between them are
those of the texts and of the separator (`lex_append`). A string is a separator whatever it
contains (`separates_quoted`).

`Nested` is what closes every bracket that it opens, and `readSeq` reads what was joined
(`readSeq_intercalate`).
-/

set_option autoImplicit false

namespace Frust.Lib

variable {α : Type}

/-- What a text is made of. -/
inductive Lexeme (α : Type) where
  | word (cs : List α)
  | str (cs : List α)
  | sym (c : α)
  deriving DecidableEq

/-- The text of a string. -/
def Lexeme.str? : Lexeme α → Option (List α)
  | .str cs => some cs
  | _ => none

/-- The characters that mean something. The quote goes before the others. -/
structure Lexer (α : Type) where
  quote : α
  escape : α
  symbol : α → Bool
  space : α → Bool
  escape_ne : escape ≠ quote

/-- Where the lexer is: in a word (or before one), in a string, or behind the escape character
in it. -/
inductive Lexing (α : Type) where
  | code (cur : List α)
  | str (cur : List α)
  | escaped (cur : List α)

namespace Lexer

/-- The word that ends here. -/
def flush : List α → List (Lexeme α)
  | [] => []
  | c :: cs => [.word (c :: cs)]

theorem flush_of_ne_nil {a : List α} (h : a ≠ []) : flush a = [.word a] := by
  cases a with
  | nil => exact absurd rfl h
  | cons c a => rfl

variable [DecidableEq α] (L : Lexer α)

/-- One character, with the lexemes that it completes. -/
def step : Lexing α → α → Lexing α × List (Lexeme α)
  | .code cur, c =>
      if c = L.quote then (.str [], flush cur)
      else if L.symbol c then (.code [], flush cur ++ [.sym c])
      else if L.space c then (.code [], flush cur)
      else (.code (cur ++ [c]), [])
  | .str cur, c =>
      if c = L.quote then (.code [], [.str cur])
      else if c = L.escape then (.escaped cur, [])
      else (.str (cur ++ [c]), [])
  | .escaped cur, c => (.str (cur ++ [c]), [])

/-- All characters of a text. -/
def run : Lexing α → List α → Lexing α × List (Lexeme α)
  | m, [] => (m, [])
  | m, c :: cs =>
      let (m', ts) := L.step m c
      let (m'', us) := run m' cs
      (m'', ts ++ us)

/-- The lexemes of a text, unless it ends inside a string. -/
def lex (cs : List α) : Option (List (Lexeme α)) :=
  match L.run (.code []) cs with
  | (.code cur, ts) => some (ts ++ flush cur)
  | _ => none

/-- A string as it is written between the quotes. -/
def escaped (s : List α) : List α :=
  s.flatMap fun c => if c = L.escape ∨ c = L.quote then [L.escape, c] else [c]

/-- The text ends the word before it, completes the lexemes `ts`, and leaves nothing open. -/
def Separates (text : List α) (ts : List (Lexeme α)) : Prop :=
  ∀ cur, L.run (.code cur) text = (.code [], flush cur ++ ts)

/-- A character of a word. -/
def Plain (c : α) : Prop := c ≠ L.quote ∧ L.symbol c = false ∧ L.space c = false

variable {L} {a b s s' : List α} {ts us m m' : List (Lexeme α)} {c : α}

/-! ### Running -/

theorem run_append (q : Lexing α) (a b : List α) :
    L.run q (a ++ b)
      = ((L.run (L.run q a).1 b).1, (L.run q a).2 ++ (L.run (L.run q a).1 b).2) := by
  induction a generalizing q with
  | nil => rfl
  | cons c a ih =>
      rw [List.cons_append]
      show ((L.run (L.step q c).1 (a ++ b)).1, (L.step q c).2 ++ (L.run (L.step q c).1 (a ++ b)).2)
        = _
      rw [ih, ← List.append_assoc]
      rfl

/-- The lexemes of a text are those that it completes, and the word at its end. -/
theorem lex_eq_some_iff :
    L.lex a = some ts ↔ ∃ cur us, L.run (.code []) a = (.code cur, us) ∧ us ++ flush cur = ts := by
  unfold lex
  constructor
  · intro h
    split at h
    · rename_i cur us hrun
      exact ⟨cur, us, hrun, Option.some.inj h⟩
    · cases h
  · rintro ⟨cur, us, hrun, rfl⟩
    rw [hrun]

@[simp] theorem lex_nil : L.lex [] = some [] := rfl

/-- Characters of a word join the word. -/
theorem run_plain (h : ∀ c ∈ a, L.Plain c) (cur : List α) :
    L.run (.code cur) a = (.code (cur ++ a), []) := by
  induction a generalizing cur with
  | nil =>
      rw [List.append_nil]
      rfl
  | cons c a ih =>
      obtain ⟨hquote, hsymbol, hspace⟩ := h c List.mem_cons_self
      have hstep : L.step (.code cur) c = (.code (cur ++ [c]), []) := by
        simp [step, hquote, hsymbol, hspace]
      have hrest := ih (fun d hd => h d (List.mem_cons_of_mem _ hd)) (cur ++ [c])
      simp only [run, hstep, hrest, List.append_assoc, List.singleton_append, List.nil_append]

theorem lex_word (h : ∀ c ∈ a, L.Plain c) (hne : a ≠ []) : L.lex a = some [.word a] := by
  refine lex_eq_some_iff.mpr ⟨a, [], run_plain h [], ?_⟩
  rw [List.nil_append, flush_of_ne_nil hne]

/-! ### Separators -/

theorem separates_symbol (hquote : c ≠ L.quote) (hsymbol : L.symbol c = true) :
    L.Separates [c] [.sym c] := by
  intro cur
  simp [run, step, hquote, hsymbol]

theorem separates_space (hquote : c ≠ L.quote) (hsymbol : L.symbol c = false)
    (hspace : L.space c = true) : L.Separates [c] [] := by
  intro cur
  simp [run, step, hquote, hsymbol, hspace]

/-- Inside a string an escaped text is that text. -/
theorem run_escape (a cur : List α) :
    L.run (.str cur) (L.escaped a) = (.str (cur ++ a), []) := by
  induction a generalizing cur with
  | nil =>
      rw [List.append_nil]
      rfl
  | cons c a ih =>
      have hc : L.run (.str cur) (if c = L.escape ∨ c = L.quote then [L.escape, c] else [c])
          = (.str (cur ++ [c]), []) := by
        split
        · simp [run, step, L.escape_ne]
        · rename_i h
          rw [not_or] at h
          simp [run, step, h.1, h.2]
      show L.run _ (_ ++ L.escaped a) = _
      rw [run_append, hc, ih, List.append_assoc]
      rfl

/-- A string ends the word before it and leaves nothing open, whatever is in it. -/
theorem separates_quoted (a : List α) :
    L.Separates (L.quote :: (L.escaped a ++ [L.quote])) [.str a] := by
  intro cur
  have hopen : L.step (.code cur) L.quote = (.str [], flush cur) := by simp [step]
  have hclose : L.step (.str a) L.quote = (.code [], [.str a]) := by simp [step]
  simp only [run, hopen, run_append, run_escape, List.nil_append, hclose, List.append_nil]

/-- A text between two separators. -/
theorem Separates.around (hs : L.Separates s m) (ha : L.lex a = some ts) (hs' : L.Separates s' m') :
    L.Separates (s ++ (a ++ s')) (m ++ (ts ++ m')) := by
  intro cur
  obtain ⟨last, us, hrun, rfl⟩ := lex_eq_some_iff.mp ha
  rw [run_append, hs cur, run_append, hrun, hs' last]
  simp only [List.append_assoc]

theorem Separates.append (hs : L.Separates s m) (hs' : L.Separates s' m') :
    L.Separates (s ++ s') (m ++ m') := hs.around lex_nil hs'

/-- A separator between two texts. -/
theorem lex_append (ha : L.lex a = some ts) (hs : L.Separates s m) (hb : L.lex b = some us) :
    L.lex (a ++ (s ++ b)) = some (ts ++ (m ++ us)) := by
  obtain ⟨cur, ts, hrun, rfl⟩ := lex_eq_some_iff.mp ha
  obtain ⟨cur', us, hrun', rfl⟩ := lex_eq_some_iff.mp hb
  refine lex_eq_some_iff.mpr ⟨cur', ts ++ (flush cur ++ (m ++ us)), ?_, ?_⟩
  · rw [run_append, hrun, run_append, hs cur, hrun']
    simp only [List.append_assoc]
  · simp only [List.append_assoc]

theorem Separates.lex (hs : L.Separates s m) : L.lex s = some m := by
  have h := lex_append lex_nil hs lex_nil
  rwa [List.append_nil, List.append_nil] at h

/-- Texts with a separator between them. -/
theorem lex_intercalate {texts : List (List α)} {tss : List (List (Lexeme α))}
    (hs : L.Separates s m) (h : List.Forall₂ (fun a ts => L.lex a = some ts) texts tss) :
    L.lex (s.intercalate texts) = some (m.intercalate tss) := by
  induction h with
  | nil => rfl
  | cons ha hrest ih =>
      cases hrest with
      | nil => simpa [List.intercalate] using ha
      | cons hb hrest =>
          rw [List.intercalate_cons_cons, List.intercalate_cons_cons, List.append_assoc,
            List.append_assoc]
          exact lex_append ha hs ih

end Lexer

/-! ### Brackets -/

/-- Every bracket that is opened is closed, and the other way round. -/
inductive Nested (brackets : List (α × α)) : List (Lexeme α) → Prop
  | nil : Nested brackets []
  | word (cs : List α) {ts : List (Lexeme α)} (h : Nested brackets ts) :
      Nested brackets (.word cs :: ts)
  | str (cs : List α) {ts : List (Lexeme α)} (h : Nested brackets ts) :
      Nested brackets (.str cs :: ts)
  | sym {c : α} {ts : List (Lexeme α)} (hc : ∀ p ∈ brackets, c ≠ p.1 ∧ c ≠ p.2)
      (h : Nested brackets ts) : Nested brackets (.sym c :: ts)
  | group {p : α × α} {ts us : List (Lexeme α)} (hp : p ∈ brackets) (hts : Nested brackets ts)
      (hus : Nested brackets us) : Nested brackets (.sym p.1 :: (ts ++ .sym p.2 :: us))

namespace Nested

variable {brackets : List (α × α)} {ts us m : List (Lexeme α)}

theorem append (hts : Nested brackets ts) (hus : Nested brackets us) :
    Nested brackets (ts ++ us) := by
  induction hts with
  | nil => exact hus
  | word cs _ ih => exact .word cs ih
  | str cs _ ih => exact .str cs ih
  | sym hc _ ih => exact .sym hc ih
  | group hp hts _ _ ih =>
      rw [List.cons_append, List.append_assoc, List.cons_append]
      exact .group hp hts ih

theorem intercalate {tss : List (List (Lexeme α))} (hm : Nested brackets m)
    (h : ∀ ts ∈ tss, Nested brackets ts) : Nested brackets (m.intercalate tss) := by
  induction tss with
  | nil => exact .nil
  | cons ts tss ih =>
      have hts := h ts List.mem_cons_self
      have hrest := ih fun us hus => h us (List.mem_cons_of_mem _ hus)
      cases tss with
      | nil => simpa [List.intercalate] using hts
      | cons us tss =>
          rw [List.intercalate_cons_cons]
          exact (hts.append hm).append hrest

end Nested

/-! ### Sequences -/

section Sequences

variable {τ β : Type}

theorem length_le_intercalate {sep : τ} {tss : List (List τ)} :
    tss.length ≤ ([sep].intercalate tss).length + 1 := by
  induction tss with
  | nil => exact Nat.zero_le _
  | cons ts tss ih =>
      cases tss with
      | nil => exact Nat.le_add_left _ _
      | cons us tss =>
          rw [List.intercalate_cons_cons]
          simp only [List.length_cons, List.length_append, List.length_nil] at ih ⊢
          omega

theorem length_le_of_mem_intercalate {sep : τ} {tss : List (List τ)} {ts : List τ} (h : ts ∈ tss) :
    ts.length ≤ ([sep].intercalate tss).length := by
  induction tss with
  | nil => cases h
  | cons us tss ih =>
      cases tss with
      | nil =>
          rw [List.mem_singleton.mp h]
          simp [List.intercalate]
      | cons ws tss =>
          rw [List.intercalate_cons_cons]
          simp only [List.length_append]
          rcases List.mem_cons.mp h with rfl | h
          · omega
          · have hle := ih h
            omega

theorem mem_intercalate {sep : List τ} {ts : List τ} {tss : List (List τ)} (h : ts ∈ tss) {t : τ}
    (ht : t ∈ ts) : t ∈ sep.intercalate tss := by
  induction tss with
  | nil => cases h
  | cons us tss ih =>
      cases tss with
      | nil =>
          rw [List.mem_singleton.mp h] at ht
          simpa [List.intercalate] using ht
      | cons ws tss =>
          rw [List.intercalate_cons_cons]
          rcases List.mem_cons.mp h with rfl | h
          · exact List.mem_append_left _ (List.mem_append_left _ ht)
          · exact List.mem_append_right _ (ih h)

/-- A separator that is left out leaves the parts. -/
theorem filterMap_intercalate {f : τ → Option β} {sep : List τ} (hsep : sep.filterMap f = [])
    (tss : List (List τ)) :
    (sep.intercalate tss).filterMap f = tss.flatMap fun ts => ts.filterMap f := by
  induction tss with
  | nil => rfl
  | cons us tss ih =>
      cases tss with
      | nil => simp [List.intercalate]
      | cons ws tss =>
          rw [List.intercalate_cons_cons, List.filterMap_append, List.filterMap_append, hsep, ih,
            List.append_nil]
          rfl

variable [DecidableEq τ]

/-- Items with a separator between them, up to what closes them. -/
def readSeq (item : List τ → Option (β × List τ)) (sep close : τ) :
    Nat → List τ → Option (List β × List τ)
  | 0, _ => none
  | n + 1, ts =>
      match item ts with
      | some (x, t :: rest) =>
          if t = close then some ([x], rest)
          else if t = sep then (readSeq item sep close n rest).map fun p => (x :: p.1, p.2)
          else none
      | _ => none

variable {item : List τ → Option (β × List τ)} {sep close : τ} {n : Nat} {ts rest : List τ}
  {xs : List β}

/-- Of a sequence there are as many items as have been read, and one at least. -/
theorem mem_of_readSeq (h : readSeq item sep close n ts = some (xs, rest)) :
    xs ≠ [] ∧ ∀ x ∈ xs, ∃ us us', item us = some (x, us') := by
  induction n generalizing ts xs with
  | zero => cases h
  | succ n ih =>
      rw [readSeq] at h
      split at h
      · rename_i x t rest' hitem
        split_ifs at h with hclose hsep
        · obtain ⟨rfl, rfl⟩ := Prod.mk.inj (Option.some.inj h)
          refine ⟨List.cons_ne_nil _ _, fun y hy => ?_⟩
          rw [List.mem_singleton.mp hy]
          exact ⟨ts, _, hitem⟩
        · obtain ⟨⟨ys, rest''⟩, hrest, heq⟩ := Option.map_eq_some_iff.mp h
          obtain ⟨rfl, rfl⟩ := Prod.mk.inj heq
          refine ⟨List.cons_ne_nil _ _, fun y hy => ?_⟩
          rcases List.mem_cons.mp hy with rfl | hy
          · exact ⟨ts, _, hitem⟩
          · exact (ih hrest).2 y hy
      · cases h

/-- What was joined is read back, item by item. -/
theorem readSeq_intercalate (hne : sep ≠ close) {tss : List (List τ)}
    (h : List.Forall₂ (fun x ts => ∀ rest, item (ts ++ rest) = some (x, rest)) xs tss)
    (hxs : xs ≠ []) (hn : xs.length ≤ n) (rest : List τ) :
    readSeq item sep close n ([sep].intercalate tss ++ close :: rest) = some (xs, rest) := by
  induction h generalizing n with
  | nil => exact absurd rfl hxs
  | @cons x ts xs tss hx hrest ih =>
      cases n with
      | zero => cases hn
      | succ n =>
          cases hrest with
          | nil =>
              have hone : [sep].intercalate [ts] = ts := by simp [List.intercalate]
              rw [hone, readSeq, hx]
              exact if_pos rfl
          | cons hy hrest =>
              rw [List.intercalate_cons_cons, List.append_assoc, List.append_assoc,
                List.singleton_append, readSeq, hx]
              show (if sep = close then _ else if sep = sep then _ else _) = _
              rw [if_neg hne, if_pos rfl, ih (List.cons_ne_nil _ _) (Nat.le_of_succ_le_succ hn)]
              rfl

/-- A sequence that may be empty. -/
def readList (item : List τ → Option (β × List τ)) (sep close : τ) (ts : List τ) :
    Option (List β × List τ) :=
  match readSeq item sep close ts.length ts with
  | some p => some p
  | none =>
      match ts with
      | t :: rest => if t = close then some ([], rest) else none
      | [] => none

theorem mem_of_readList (h : readList item sep close ts = some (xs, rest)) :
    ∀ x ∈ xs, ∃ us us', item us = some (x, us') := by
  unfold readList at h
  split at h
  · rename_i p hseq
    obtain rfl := Option.some.inj h
    exact (mem_of_readSeq hseq).2
  · split at h
    · split_ifs at h with hclose
      · obtain ⟨rfl, -⟩ := Prod.mk.inj (Option.some.inj h)
        exact fun _ hx => nomatch hx
    · cases h

/-- What was joined is read back, where what closes it is no item. -/
theorem readList_intercalate (hne : sep ≠ close) (hclose : ∀ us, item (close :: us) = none)
    {tss : List (List τ)}
    (h : List.Forall₂ (fun x ts => ∀ rest, item (ts ++ rest) = some (x, rest)) xs tss)
    (rest : List τ) :
    readList item sep close ([sep].intercalate tss ++ close :: rest) = some (xs, rest) := by
  unfold readList
  cases xs with
  | nil =>
      cases h
      have hnone : readSeq item sep close (close :: rest).length (close :: rest) = none := by
        rw [List.length_cons, readSeq, hclose]
      show (match readSeq item sep close (close :: rest).length (close :: rest) with
        | some p => some p
        | none => if close = close then some ([], rest) else none) = _
      rw [hnone]
      exact if_pos rfl
  | cons x xs =>
      have hlength : (x :: xs).length ≤ ([sep].intercalate tss ++ close :: rest).length := by
        have hle := @length_le_intercalate τ sep tss
        rw [h.length_eq, List.length_append, List.length_cons]
        omega
      rw [readSeq_intercalate hne h (List.cons_ne_nil _ _) hlength rest]

end Sequences

end Frust.Lib
