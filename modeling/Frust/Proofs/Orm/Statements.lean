import Frust.Orm.Statements
import Frust.Proofs.Orm.Split

/-!
# `Frust.Proofs.Orm.Statements`: where a block is cut

A text is cut behind a prefix exactly when the prefix is balanced (`cutAfter_iff`): not inside
a string or a block. The scan of bytes has the bytes of the pieces (`splitBytes_bytesOf`), so it
never cuts a character. The pieces joined are the text but for one last semicolon, and statements
that are joined are found again, but for a last one that is empty.
-/

set_option autoImplicit false

namespace Frust.Orm

open Frust.Lib Frust.Rust

/-! ### Bytes -/

/-- `splitNext` on bytes. -/
def byteNext : Nat × Place → UInt8 → Nat × Place
  | (d, .code), b =>
      if b = 39 then (d, .quoted)
      else if b = 123 then (d + 1, .code)
      else if b = 125 then (d - 1, .code)
      else (d, .code)
  | (d, .quoted), b =>
      if b = 92 then (d, .escaped) else if b = 39 then (d, .code) else (d, .quoted)
  | (d, .escaped), _ => (d, .quoted)

/-- The automaton of `splitBytes`. -/
def byteSplitter : Cutter (Nat × Place) UInt8 where
  next := byteNext
  ends s b := decide (s = (0, .code)) && decide (b = 59)

theorem splitBytesAux_eq (l : List UInt8) (d : Nat) (inStr : Bool) (cur : List UInt8) :
    splitBytesAux l d inStr cur = byteSplitter.cut l (d, placeOf inStr) cur := by
  fun_induction splitBytesAux l d inStr cur with
  | case1 d inStr cur h => simp [Cutter.cut, h]
  | case2 d inStr cur h => simp [Cutter.cut, h]
  | case3 d cur => simp [Cutter.cut, placeOf, byteSplitter]
  | case4 c rest d cur ih =>
      rw [ih]
      simp [Cutter.cut, byteNext, placeOf, byteSplitter]
  | case5 rest d inStr cur h₁ h₂ ih =>
      rw [ih]
      cases inStr <;> simp [Cutter.cut, byteNext, placeOf, byteSplitter]
  | case6 c rest d inStr cur h₁ h₂ hquote hopen ih =>
      rw [ih]
      cases inStr <;> simp_all [Cutter.cut, byteNext, placeOf, byteSplitter]
  | case7 c rest d inStr cur h₁ h₂ hquote hopen hclose ih =>
      rw [ih]
      cases inStr <;> simp_all [Cutter.cut, byteNext, placeOf, byteSplitter]
  | case8 c rest d inStr cur h₁ h₂ hquote hopen hclose hends ih =>
      rw [ih]
      cases inStr <;> simp_all [Cutter.cut, byteNext, placeOf, byteSplitter]
  | case9 c rest d inStr cur h₁ h₂ hquote hopen hclose hends ih =>
      rw [ih]
      -- An escape was taken by the two cases above: a backslash in a string with a byte after it.
      have hplain : inStr = true → c ≠ 92 := by
        rintro hstr rfl
        cases rest with
        | nil => exact h₁ hstr rfl rfl
        | cons c rest => exact h₂ c rest hstr rfl rfl
      cases inStr with
      | true => simp_all [Cutter.cut, byteNext, placeOf, byteSplitter]
      | false =>
          have hgo : (decide ((d, Place.code) = (0, Place.code)) && decide (c = 59)) = false := by
            simp only [Prod.mk.injEq, and_true, Bool.and_eq_false_iff, decide_eq_false_iff_not]
            by_cases hd : d = 0
            · exact Or.inr fun hc => hends (by simp [hd, hc])
            · exact Or.inl hd
          simp_all [Cutter.cut, byteNext, placeOf, byteSplitter]

/-- A byte above 127 is none of those that the scan looks for. -/
theorem byteNext_high {b : UInt8} (hb : 128 ≤ b.toNat) (d : Nat) :
    byteNext (d, .code) b = (d, .code) ∧ byteNext (d, .quoted) b = (d, .quoted) ∧
      byteNext (d, .escaped) b = (d, .quoted) ∧ ∀ s, byteSplitter.ends s b = false := by
  have hne : ∀ n : UInt8, n.toNat < 128 → b ≠ n := by
    rintro n hn rfl
    omega
  simp [byteNext, byteSplitter, hne 39 (by decide), hne 123 (by decide), hne 125 (by decide),
    hne 92 (by decide), hne 59 (by decide)]

/-- A character above 127 is none of those that the scan looks for. -/
theorem splitNext_high {c : Char} (hc : 128 ≤ c.toNat) (d : Nat) :
    splitNext (d, .code) c = (d, .code) ∧ splitNext (d, .quoted) c = (d, .quoted) := by
  have hne : ∀ k : Char, k.toNat < 128 → c ≠ k := by
    rintro k hk rfl
    omega
  simp [splitNext, hne '\'' (by decide), hne '{' (by decide), hne '}' (by decide),
    hne '\\' (by decide)]

/-- A character below 128 is looked for as its byte is. -/
theorem byteNext_low {c : Char} (hc : c.toNat < 128) (s : Nat × Place) :
    byteNext s (UInt8.ofNat c.toNat) = splitNext s c ∧
      byteSplitter.ends s (UInt8.ofNat c.toNat) = splitter.ends s c := by
  -- Below 128 a character and its byte are the same number.
  have hiff : ∀ (k : Char) (n : UInt8), k.toNat = n.toNat → (UInt8.ofNat c.toNat = n ↔ c = k) := by
    intro k n hk
    rw [← UInt8.toNat_inj, UInt8.toNat_ofNat', Nat.mod_eq_of_lt (by omega), ← hk]
    constructor
    · intro h
      exact Char.ext (UInt32.toNat_inj.mp h)
    · rintro rfl
      rfl
  have hquote := hiff '\'' 39 (by decide)
  have hopen := hiff '{' 123 (by decide)
  have hclose := hiff '}' 125 (by decide)
  have hslash := hiff '\\' 92 (by decide)
  have hsemi := hiff ';' 59 (by decide)
  obtain ⟨d, place⟩ := s
  cases place <;>
    simp [byteNext, splitNext, byteSplitter, hquote, hopen, hclose, hslash, hsemi]

/-- The bytes of a character are read as the character. -/
theorem spells_splitter : Cutter.Spells splitter byteSplitter String.utf8EncodeChar where
  ne_nil _ := String.utf8EncodeChar_ne_nil
  ends s c hc := by
    -- A cut is at a semicolon, which is one byte.
    have hsemi : c = ';' := by simp_all
    subst hsemi
    obtain ⟨hnext, hends⟩ := byteNext_low (c := ';') (by decide) s
    exact ⟨59, by decide, hends.trans hc, hnext⟩
  pass s c hc := by
    rcases utf8EncodeChar_cases c with ⟨hlow, hbytes⟩ | ⟨hhigh, hbytes⟩
    · obtain ⟨hnext, hends⟩ := byteNext_low hlow s
      rw [hbytes, Cutter.pass, hends, hc, if_neg Bool.false_ne_true]
      exact congrArg some hnext
    · obtain ⟨d, place⟩ := s
      -- Above 127 all bytes are plain, inside strings and outside.
      have hstill : ∀ bytes : List UInt8, (∀ b ∈ bytes, 128 ≤ b.toNat) →
          byteSplitter.pass (d, .code) bytes = some (d, .code) ∧
            byteSplitter.pass (d, .quoted) bytes = some (d, .quoted) := by
        intro bytes hall
        constructor
        · exact Cutter.pass_of_still fun b hb =>
            ⟨(byteNext_high (hall b hb) d).2.2.2 _, (byteNext_high (hall b hb) d).1⟩
        · exact Cutter.pass_of_still fun b hb =>
            ⟨(byteNext_high (hall b hb) d).2.2.2 _, (byteNext_high (hall b hb) d).2.1⟩
      cases place with
      | code => exact ((hstill _ hbytes).1).trans (congrArg some (splitNext_high hhigh d).1.symm)
      | quoted => exact ((hstill _ hbytes).2).trans (congrArg some (splitNext_high hhigh d).2.symm)
      | escaped =>
          -- the backslash takes the first byte, and the others are plain
          obtain ⟨b, bytes, hcons⟩ := List.exists_cons_of_ne_nil
            (String.utf8EncodeChar_ne_nil (c := c))
          rw [hcons] at hbytes ⊢
          obtain ⟨hb, hrest⟩ := List.forall_mem_cons.mp hbytes
          rw [Cutter.pass, (byteNext_high hb d).2.2.2, if_neg Bool.false_ne_true]
          show byteSplitter.pass (byteNext (d, .escaped) b) bytes = _
          rw [(byteNext_high hb d).2.2.1]
          exact (hstill _ hrest).2

/-- The scan of bytes cuts the bytes of a text into the bytes of its pieces. -/
theorem splitBytes_bytesOf (s : String) :
    splitBytes (bytesOf s) = (splitStatements s).map bytesOf := by
  have hbytes : ∀ t : String, bytesOf t = t.toList.flatMap String.utf8EncodeChar := by
    intro t
    unfold bytesOf
    rw [← toUTF8_eq_flatMap, String.ofList_toList]
  -- Both scans cut by their automata, and the automaton of the bytes spells the other.
  have hcut := spells_splitter.cut s.toList (0, .code) []
  unfold splitBytes
  rw [splitBytesAux_eq, splitStatements_eq, hbytes, List.map_map]
  refine hcut.trans (List.map_congr_left fun l _ => ?_)
  rw [Function.comp_apply, hbytes, String.toList_ofList]

/-! ### Balanced texts -/

/-- A string is read to its end, without a cut. -/
theorem StringTail.pass {l : List Char} (h : StringTail l) (d : Nat) :
    splitter.pass (d, .quoted) l = some (d, .code) := by
  induction h with
  | close => simp [Cutter.pass, splitNext]
  | escaped c _ ih => simpa [Cutter.pass, splitNext] using ih
  | plain hquote hslash _ ih => simpa [Cutter.pass, splitNext, hquote, hslash] using ih

/-- A plain character leaves the state alone, but for a brace above depth zero. -/
theorem splitNext_plain {c : Char} (hquote : c ≠ '\'') (hopen : c ≠ '{') (d : Nat)
    (hclose : c = '}' → d = 0) : splitNext (d, .code) c = (d, .code) := by
  simp only [splitNext, hquote, hopen, if_false]
  split
  · rename_i hc
    rw [hclose hc]
  · rfl

/-- A statement passes at any depth, and a block inside one. -/
theorem Balanced.pass {z : Zone} {l : List Char} (h : Balanced z l) (d : Nat)
    (hz : z = .statement ∨ z = .block ∧ d ≠ 0) :
    splitter.pass (d, .code) l = some (d, .code) := by
  induction h generalizing d with
  | nil => rfl
  | @plain z c rest hquote hopen hallows _ ih =>
      have hclose : c ≠ '}' := by
        rcases hz with rfl | ⟨rfl, _⟩
        · exact hallows.2
        · exact hallows
      have hends : splitter.ends (d, .code) c = false := by
        rcases hz with rfl | ⟨rfl, hd⟩
        · simp [hallows.1]
        · simp [hd]
      rw [Cutter.pass, hends, if_neg Bool.false_ne_true, splitter_next,
        splitNext_plain hquote hopen d fun h => absurd h hclose]
      exact ih d hz
  | @string z body rest hbody _ ih =>
      have hopen : splitter.pass (d, .code) ('\'' :: body) = some (d, .code) := by
        simpa [Cutter.pass, splitNext] using hbody.pass d
      exact Cutter.pass_append hopen (ih d hz)
  | @block z inner rest _ _ ihinner ih =>
      -- One deeper inside the block, where a semicolon is no cut.
      have hin := ihinner (d + 1) (.inr ⟨rfl, Nat.succ_ne_zero d⟩)
      have hopen : splitter.pass (d, .code) ['{'] = some (d + 1, .code) := by
        simp [Cutter.pass, splitNext]
      have hclose : splitter.pass (d + 1, .code) ('}' :: rest) = splitter.pass (d, .code) rest := by
        simp [Cutter.pass, splitNext]
      refine Cutter.pass_append hopen (Cutter.pass_append hin ?_)
      rw [hclose]
      exact ih d hz

/-- A text that is balanced outside of blocks is read from the start state back to it. -/
theorem Balanced.foldl {l : List Char} (h : Balanced .top l) :
    l.foldl splitNext (0, .code) = (0, .code) := by
  generalize hz : Zone.top = z at h
  induction h with
  | nil => rfl
  | @plain z c rest hquote hopen _ _ ih =>
      rw [List.foldl_cons, splitNext_plain hquote hopen 0 fun _ => rfl]
      exact ih hz
  | @string z body rest hbody _ ih =>
      have hread := Cutter.foldl_of_pass (C := splitter) (hbody.pass 0)
      rw [List.foldl_cons, List.foldl_append]
      show rest.foldl splitNext (body.foldl splitter.next (0, .quoted)) = _
      rw [hread]
      exact ih hz
  | @block z inner rest hinner _ _ ih =>
      have hread := Cutter.foldl_of_pass (hinner.pass 1 (.inr ⟨rfl, by decide⟩))
      rw [List.foldl_cons, List.foldl_append, List.foldl_cons]
      show rest.foldl splitNext (splitNext (inner.foldl splitter.next (1, .code)) '}') = _
      rw [hread]
      exact ih hz

/-- What is read from inside a string to the outside has the end of the string. -/
theorem exists_stringTail (l : List Char) (d d' : Nat)
    (h : l.foldl splitNext (d, .quoted) = (d', .code)) :
    ∃ body rest, l = body ++ rest ∧ StringTail body ∧
      rest.foldl splitNext (d, .code) = (d', .code) := by
  -- By the length: what comes after an escape is shorter by two.
  induction hn : l.length using Nat.strong_induction_on generalizing l with
  | _ n ih =>
      cases l with
      | nil => simp at h
      | cons c l =>
          rw [List.length_cons] at hn
          rw [List.foldl_cons] at h
          by_cases hquote : c = '\''
          · subst hquote
            exact ⟨['\''], l, rfl, .close, by simpa [splitNext] using h⟩
          by_cases hslash : c = '\\'
          · subst hslash
            cases l with
            | nil => simp [splitNext] at h
            | cons e l =>
                have hrest : l.foldl splitNext (d, .quoted) = (d', .code) := by
                  simpa [splitNext] using h
                rw [List.length_cons] at hn
                obtain ⟨body, rest, rfl, hbody, hread⟩ := ih l.length (by omega) l hrest rfl
                exact ⟨'\\' :: e :: body, rest, rfl, .escaped e hbody, hread⟩
          · have hrest : l.foldl splitNext (d, .quoted) = (d', .code) := by
              simpa [splitNext, hquote, hslash] using h
            obtain ⟨body, rest, rfl, hbody, hread⟩ := ih l.length (by omega) l hrest rfl
            exact ⟨c :: body, rest, rfl, .plain hquote hslash hbody, hread⟩

/-- What is read from inside a block to the outside has the end of the block. -/
theorem exists_block (l : List Char) (d d' : Nat) (hd : d' ≤ d)
    (h : l.foldl splitNext (d + 1, .code) = (d', .code)) :
    ∃ inner rest, l = inner ++ '}' :: rest ∧ Balanced .block inner ∧
      rest.foldl splitNext (d, .code) = (d', .code) := by
  -- By the length, as a string or a block inside takes many characters at once.
  induction hn : l.length using Nat.strong_induction_on generalizing l d with
  | _ n ih =>
      cases l with
      | nil =>
          simp at h
          omega
      | cons c l =>
          rw [List.length_cons] at hn
          rw [List.foldl_cons] at h
          by_cases hquote : c = '\''
          · -- a string, and then what is left of the block
            subst hquote
            obtain ⟨body, rest, rfl, hbody, hread⟩ :=
              exists_stringTail l (d + 1) d' (by simpa [splitNext] using h)
            rw [List.length_append] at hn
            have hlength : body ≠ [] := by
              rintro rfl
              cases hbody
            obtain ⟨inner, rest, rfl, hinner, hread⟩ :=
              ih rest.length (by omega) rest d hd hread rfl
            exact ⟨'\'' :: (body ++ inner), rest, by simp, .string hbody hinner, hread⟩
          by_cases hopen : c = '{'
          · -- a block inside, and then what is left of this one
            subst hopen
            have hin : l.foldl splitNext (d + 1 + 1, .code) = (d', .code) := by
              simpa [splitNext] using h
            obtain ⟨inner, rest, rfl, hinner, hread⟩ := ih l.length (by omega) l (d + 1) (by omega)
              hin rfl
            rw [List.length_append, List.length_cons] at hn
            obtain ⟨inner', rest, rfl, hinner', hread⟩ :=
              ih rest.length (by omega) rest d hd hread rfl
            exact ⟨'{' :: (inner ++ '}' :: inner'), rest, by simp, .block hinner hinner', hread⟩
          by_cases hclose : c = '}'
          · subst hclose
            -- The first brace that closes at this depth is the end.
            exact ⟨[], l, rfl, .nil _, by simpa [splitNext] using h⟩
          · have hrest : l.foldl splitNext (d + 1, .code) = (d', .code) := by
              simpa [splitNext, hquote, hopen, hclose] using h
            obtain ⟨inner, rest, rfl, hinner, hread⟩ := ih l.length (by omega) l d hd hrest rfl
            exact ⟨c :: inner, rest, rfl, .plain hquote hopen hclose hinner, hread⟩

/-- A text that is read from the start state back to it is balanced. -/
theorem balanced_of_foldl (l : List Char) (h : l.foldl splitNext (0, .code) = (0, .code)) :
    Balanced .top l := by
  induction hn : l.length using Nat.strong_induction_on generalizing l with
  | _ n ih =>
      cases l with
      | nil => exact .nil _
      | cons c l =>
          rw [List.length_cons] at hn
          rw [List.foldl_cons] at h
          by_cases hquote : c = '\''
          · subst hquote
            obtain ⟨body, rest, rfl, hbody, hread⟩ :=
              exists_stringTail l 0 0 (by simpa [splitNext] using h)
            rw [List.length_append] at hn
            exact .string hbody (ih rest.length (by omega) rest hread rfl)
          by_cases hopen : c = '{'
          · subst hopen
            obtain ⟨inner, rest, rfl, hinner, hread⟩ :=
              exists_block l 0 0 (Nat.le_refl 0) (by simpa [splitNext] using h)
            rw [List.length_append, List.length_cons] at hn
            exact .block hinner (ih rest.length (by omega) rest hread rfl)
          · -- A brace that closes nothing is plain at depth zero.
            rw [splitNext_plain hquote hopen 0 fun _ => rfl] at h
            exact .plain hquote hopen trivial (ih l.length (by omega) l h rfl)

/-- The texts after which the splitter is at its start. -/
theorem balanced_iff (l : List Char) :
    Balanced .top l ↔ l.foldl splitNext (0, .code) = (0, .code) :=
  ⟨Balanced.foldl, balanced_of_foldl l⟩

/-! ### Cuts -/

/-- Statements joined by semicolons. -/
def joined (ss : List String) : String := ";".intercalate ss

/-- The text is cut behind `pre`: the first pieces, joined, are `pre`. -/
def CutAfter (s : String) (pre : List Char) : Prop :=
  ∃ ps qs, splitStatements s = ps ++ qs ∧ ps ≠ [] ∧ (joined ps).toList = pre

theorem toList_joined (ls : List (List Char)) :
    (joined (ls.map String.ofList)).toList = [';'].intercalate ls := by
  unfold joined
  rw [String.toList_intercalate, List.map_map]
  have hid : ls.map (String.toList ∘ String.ofList) = ls := by
    calc ls.map _ = ls.map id := List.map_congr_left fun l _ => String.toList_ofList
      _ = ls := List.map_id ls
  rw [hid]
  rfl

/-- Only a semicolon is a cut. -/
theorem splitter_sep (s : Nat × Place) (c : Char) (h : splitter.ends s c = true) : c = ';' := by
  rw [splitter_ends, Bool.and_eq_true, decide_eq_true_eq, decide_eq_true_eq] at h
  exact h.2

/-- The pieces joined are the text, but for a semicolon at its end. -/
theorem joined_splitStatements (s : String) :
    joined (splitStatements s) = s ∨ joined (splitStatements s) ++ ";" = s := by
  have hjoin := Cutter.join_cut splitter_sep s.toList (0, .code) []
  have hsemi : (";" : String).toList = [';'] := by decide
  rw [← toList_joined, ← splitStatements_eq, List.reverse_nil, List.nil_append] at hjoin
  -- The rest after the last semicolon is a piece only if it is not empty.
  rcases hjoin with h | h
  · exact .inl (String.toList_inj.mp h)
  · exact .inr (String.toList_inj.mp (by rw [String.toList_append, hsemi, h]))

/-- A text is cut at a semicolon exactly when what stands before it is balanced. -/
theorem cutAfter_iff {s : String} {pre post : List Char} (hs : s.toList = pre ++ ';' :: post) :
    CutAfter s pre ↔ Balanced .top pre := by
  rw [balanced_iff]
  constructor
  · rintro ⟨ps, qs, hsplit, hne, hjoin⟩
    rw [splitStatements_eq, hs] at hsplit
    obtain ⟨ls, ms, hcut, hls, _⟩ := List.map_eq_append_iff.mp hsplit
    subst hls
    rw [toList_joined] at hjoin
    -- Behind whole pieces the splitter is at its start.
    exact Cutter.foldl_of_cut splitter_start pre (0, .code) post [] hcut
      (fun h => hne (by rw [h]; rfl)) hjoin
  · intro hback
    -- At its start the splitter cuts at the semicolon that comes next.
    have hends : splitter.ends (pre.foldl splitter.next (0, .code)) ';' = true := by
      rw [show pre.foldl splitter.next (0, .code) = (0, .code) from hback]
      rfl
    obtain ⟨ls, ms, hcut, hne, hjoin⟩ := Cutter.exists_cut splitter_sep pre (0, .code) hends post []
    refine ⟨ls.map String.ofList, ms.map String.ofList, ?_, ?_, ?_⟩
    · rw [splitStatements_eq, hs, hcut, List.map_append]
    · simpa using hne
    · rw [toList_joined, hjoin]
      rfl

/-- Statements that are joined are found again, but for a last one that is empty. -/
theorem splitStatements_joined {ss : List String} (h : ∀ x ∈ ss, Statement x) :
    splitStatements (joined ss) = if ss.getLast? = some "" then ss.dropLast else ss := by
  -- Each statement is read from the start state to the start state, without a cut.
  have hpass : ∀ l ∈ ss.map String.toList, splitter.pass (0, .code) l = some (0, .code) := by
    intro l hl
    obtain ⟨x, hx, rfl⟩ := List.mem_map.mp hl
    exact Balanced.pass (h x hx) 0 (.inl rfl)
  have hback : (ss.map String.toList).map String.ofList = ss := by
    rw [List.map_map]
    calc ss.map _ = ss.map id := List.map_congr_left fun x _ => String.ofList_toList
      _ = ss := List.map_id ss
  have hjoin : (joined ss).toList = [';'].intercalate (ss.map String.toList) := by
    rw [← toList_joined, hback]
  have hlast : (ss.map String.toList).getLast? = some [] ↔ ss.getLast? = some "" := by
    rw [List.getLast?_map, Option.map_eq_some_iff]
    simp
  have hends : splitter.ends (0, .code) ';' = true := rfl
  have hnext : splitter.next (0, .code) ';' = (0, .code) := rfl
  obtain ⟨hempty, hfull⟩ := Cutter.cut_intercalate hends hnext hpass
  rw [splitStatements_eq, hjoin]
  split
  · rename_i h
    rw [hempty (hlast.mpr h), List.map_dropLast, hback]
  · rename_i h
    rw [hfull fun h' => h (hlast.mp h'), hback]

/-- Splitting is exact and loses nothing: the pieces joined are the text, but for a semicolon at its
end; statements that are joined are found again, but for a last one that is empty; a semicolon is a
cut exactly when what stands before it has closed its strings and blocks; and the scan of bytes,
which the code runs, cuts between characters. -/
theorem splitStatements_exact (s : String) (ss : List String) (hss : ∀ x ∈ ss, Statement x) :
    (joined (splitStatements s) = s ∨ joined (splitStatements s) ++ ";" = s) ∧
      splitStatements (joined ss) = (if ss.getLast? = some "" then ss.dropLast else ss) ∧
      (∀ pre post, s.toList = pre ++ ';' :: post → (CutAfter s pre ↔ Balanced .top pre)) ∧
      splitBytes (bytesOf s) = (splitStatements s).map bytesOf :=
  ⟨joined_splitStatements s, splitStatements_joined hss, fun _ _ hs => cutAfter_iff hs,
    splitBytes_bytesOf s⟩

/-- A statement with a block and a string, and one without, joined and in their block. -/
theorem splitStatements_exact_two :
    (joined (splitStatements "e \x7ba;'\x7d'\x7d;b") = "e \x7ba;'\x7d'\x7d;b" ∨
        joined (splitStatements "e \x7ba;'\x7d'\x7d;b") ++ ";" = "e \x7ba;'\x7d'\x7d;b") ∧
      splitStatements (joined ["e \x7ba;'\x7d'\x7d", "b"]) = ["e \x7ba;'\x7d'\x7d", "b"] ∧
      (CutAfter "e \x7ba;'\x7d'\x7d;b" "e \x7ba;'\x7d'\x7d".toList ↔
        Balanced .top "e \x7ba;'\x7d'\x7d".toList) ∧
      splitBytes (bytesOf "e \x7ba;'\x7d'\x7d;b") =
        (splitStatements "e \x7ba;'\x7d'\x7d;b").map bytesOf := by
  have hblock : Statement "e \x7ba;'\x7d'\x7d" := by
    show Balanced .statement ['e', ' ', '{', 'a', ';', '\'', '}', '\'', '}']
    refine .plain (by decide) (by decide) (by decide) ?_
    refine .plain (by decide) (by decide) (by decide) ?_
    have hstring : StringTail ['}', '\''] := .plain (by decide) (by decide) .close
    have hinner : Balanced .block ['a', ';', '\'', '}', '\''] :=
      .plain (by decide) (by decide) (by decide)
        (.plain (by decide) (by decide) (by decide) (.string hstring (.nil _)))
    exact .block hinner (.nil _)
  have hplain : Balanced .statement ['b'] := .plain (by decide) (by decide) (by decide) (.nil _)
  have hall : ∀ x ∈ ["e \x7ba;'\x7d'\x7d", "b"], Statement x := by
    intro x hx
    rcases List.mem_cons.mp hx with rfl | hx
    · exact hblock
    · rw [List.mem_singleton.mp hx]
      exact hplain
  obtain ⟨hjoin, hsplit, hcut, hbytes⟩ := splitStatements_exact "e \x7ba;'\x7d'\x7d;b" _ hall
  exact ⟨hjoin, hsplit, hcut _ _ rfl, hbytes⟩

/-- An empty statement at the end is not found again: what is left of the text there is no piece. -/
theorem not_splitStatements_empty :
    splitStatements (joined ["a", ""]) = ["a"] ∧
      ¬ ∀ ss : List String, (∀ x ∈ ss, Statement x) → splitStatements (joined ss) = ss := by
  have hone : splitStatements (joined ["a", ""]) = ["a"] := by decide +kernel
  refine ⟨hone, fun h => ?_⟩
  have hempty : Balanced .statement [] := .nil _
  have ha : Balanced .statement ['a'] := .plain (by decide) (by decide) (by decide) (.nil _)
  have hall : ∀ x ∈ ["a", ""], Statement x := by
    intro x hx
    rcases List.mem_cons.mp hx with rfl | hx
    · exact ha
    · rw [List.mem_singleton.mp hx]
      exact hempty
  have htwo := h ["a", ""] hall
  rw [hone] at htwo
  exact absurd htwo (by decide)

end Frust.Orm
