import Frust.Rust.Str
import Mathlib.Data.List.Infix

/-!
# `Frust.Proofs.Rust.Str`: words, ends and bytes of texts

`Tight` texts begin and end with something other than whitespace, so `trim` leaves them as they
are. A word before a space is the first of `splitWhitespace`.

A character below 128 is its own byte, and every byte of any other is 128 or more
(`utf8EncodeChar_cases`). So a scan for bytes below 128 finds characters, and never a part of one.
Reading the bytes of a text gives the text (`fromUtf8Lossy_flatMap`). Of a longer text `truncate` keeps
the characters of the first bytes, if characters fill them (`truncate_eq_some_iff`).
-/

set_option autoImplicit false

namespace Frust.Rust.Str

/-! ### Ends of a text -/

/-- The text ends with something other than whitespace. -/
def EndsTight (s : String) : Prop := ∃ c, s.toList.getLast? = some c ∧ isWhitespace c = false

instance (s : String) : Decidable (EndsTight s) :=
  match h : s.toList.getLast? with
  | none => .isFalse fun ⟨_, hc, _⟩ => by rw [h] at hc; cases hc
  | some c =>
      if hw : isWhitespace c = false then .isTrue ⟨c, h, hw⟩
      else .isFalse fun ⟨d, hd, hw'⟩ => by
        rw [h] at hd
        obtain rfl := Option.some.inj hd
        exact hw hw'

/-- The text begins and ends with something other than whitespace. -/
structure Tight (s : String) : Prop where
  starts : ∃ c, s.toList.head? = some c ∧ isWhitespace c = false
  ends : EndsTight s

theorem EndsTight.append {a b : String} (h : EndsTight b) : EndsTight (a ++ b) := by
  obtain ⟨c, hlast, hc⟩ := h
  refine ⟨c, ?_, hc⟩
  rw [String.toList_append, List.getLast?_append, hlast]
  rfl

theorem Tight.append {a b : String} (ha : ∃ c, a.toList.head? = some c ∧ isWhitespace c = false)
    (hb : EndsTight b) : Tight (a ++ b) := by
  refine ⟨?_, hb.append⟩
  obtain ⟨c, hhead, hc⟩ := ha
  refine ⟨c, ?_, hc⟩
  rw [String.toList_append, List.head?_append, hhead]
  rfl

theorem EndsTight.ne_empty {s : String} (h : EndsTight s) : s.toList ≠ [] := by
  obtain ⟨c, hlast, _⟩ := h
  rintro hnil
  rw [hnil] at hlast
  cases hlast

theorem dropWhile_of_head {p : Char → Bool} {l : List Char}
    (h : ∃ c, l.head? = some c ∧ p c = false) : l.dropWhile p = l := by
  obtain ⟨c, hhead, hc⟩ := h
  cases l with
  | nil => cases hhead
  | cons d l =>
      obtain rfl := Option.some.inj hhead
      rw [List.dropWhile_cons, hc]
      rfl

/-- `trim` takes whitespace off the front. -/
theorem trim_cons {c : Char} (hc : isWhitespace c = true) (l : List Char) :
    trim (String.ofList (c :: l)) = trim (String.ofList l) := by
  unfold trim trimMatches
  rw [String.toList_ofList, String.toList_ofList, List.dropWhile_cons, hc, if_pos rfl]

/-- `trim` leaves a tight text as it is. -/
theorem trim_tight {s : String} (h : Tight s) : trim s = s := by
  unfold trim trimMatches
  have hback : s.toList.reverse.dropWhile isWhitespace = s.toList.reverse := by
    refine dropWhile_of_head ?_
    rw [List.head?_reverse]
    exact h.ends
  rw [dropWhile_of_head h.starts, hback, List.reverse_reverse, String.ofList_toList]

/-- What `trim` leaves is tight, unless it is nothing. -/
theorem tight_trim {s : String} (h : trim s ≠ "") : Tight (trim s) := by
  have hlist : trimMatches isWhitespace s.toList ≠ [] := by
    intro hnil
    exact h (by rw [trim, hnil])
  have hhead {l : List Char} (hne : l.dropWhile isWhitespace ≠ []) :
      ∃ c, (l.dropWhile isWhitespace).head? = some c ∧ isWhitespace c = false :=
    ⟨_, List.head?_eq_some_head hne, List.head_dropWhile_not isWhitespace hne⟩
  unfold trimMatches at hlist
  have hback := List.reverse_ne_nil_iff.mp hlist
  have hfront : s.toList.dropWhile isWhitespace ≠ [] := by
    intro hnil
    rw [hnil] at hback
    exact hback rfl
  constructor
  · -- the first character is that of the text without its front
    obtain ⟨c, hc, hspace⟩ := hhead hfront
    refine ⟨c, ?_, hspace⟩
    rw [trim, trimMatches, String.toList_ofList, List.head?_reverse]
    obtain ⟨w, hw⟩ := List.dropWhile_suffix isWhitespace (l := (s.toList.dropWhile isWhitespace).reverse)
    rw [← List.getLast?_append_of_ne_nil w hback, hw, List.getLast?_reverse, hc]
  · obtain ⟨c, hc, hspace⟩ := hhead hback
    refine ⟨c, ?_, hspace⟩
    rw [trim, trimMatches, String.toList_ofList, List.getLast?_reverse, hc]

/-- The text ends with neither whitespace nor a semicolon. -/
def EndsPlain (s : String) : Prop :=
  ∃ c, s.toList.getLast? = some c ∧ isWhitespace c = false ∧ c ≠ ';'

instance (s : String) : Decidable (EndsPlain s) :=
  decidable_of_iff (s.toList.getLast?.any fun c => !isWhitespace c && c ≠ ';') <| by
    unfold EndsPlain
    cases s.toList.getLast? <;> simp

theorem EndsPlain.append {a b : String} (h : EndsPlain b) : EndsPlain (a ++ b) := by
  obtain ⟨c, hlast, hc⟩ := h
  refine ⟨c, ?_, hc⟩
  rw [String.toList_append, List.getLast?_append, hlast]
  rfl

theorem trimEndMatches_of_endsPlain {s : String} (h : EndsPlain s) :
    trimEndMatches ';' s = s := by
  obtain ⟨c, hlast, _, hne⟩ := h
  unfold trimEndMatches
  rw [dropWhile_of_head ⟨c, by rw [List.head?_reverse]; exact hlast, by simpa using hne⟩,
    List.reverse_reverse, String.ofList_toList]

/-! ### Words -/

/-- The text has a character, and no whitespace. -/
def IsWord (s : String) : Prop := s.toList ≠ [] ∧ ∀ c ∈ s.toList, isWhitespace c = false

instance (s : String) : Decidable (IsWord s) :=
  @instDecidableAnd _ _ inferInstance (List.decidableBAll _ _)

theorem splitWhitespaceAux_word {l : List Char} (hl : ∀ c ∈ l, isWhitespace c = false)
    (rest cur : List Char) :
    splitWhitespaceAux (l ++ rest) cur = splitWhitespaceAux rest (l.reverse ++ cur) := by
  induction l generalizing cur with
  | nil => rfl
  | cons c l ih =>
      rw [List.cons_append, splitWhitespaceAux, hl c List.mem_cons_self,
        if_neg Bool.false_ne_true, ih fun d hd => hl d (List.mem_cons_of_mem _ hd),
        List.reverse_cons, List.append_assoc, List.singleton_append]

theorem splitWhitespaceAux_append (l r cur : List Char) :
    splitWhitespaceAux (l ++ ' ' :: r) cur = splitWhitespaceAux l cur ++ splitWhitespaceAux r [] := by
  have hspace : isWhitespace ' ' = true := by decide
  induction l generalizing cur with
  | nil =>
      simp only [List.nil_append, splitWhitespaceAux, hspace, if_true]
      split <;> simp
  | cons c l ih =>
      simp only [List.cons_append, splitWhitespaceAux]
      split
      · split
        · exact ih []
        · rw [ih [], List.cons_append]
      · exact ih (c :: cur)

/-- The words of two texts with a space between them. -/
theorem splitWhitespace_append (a b : String) :
    splitWhitespace (a ++ " " ++ b) = splitWhitespace a ++ splitWhitespace b := by
  unfold splitWhitespace
  rw [String.toList_append, String.toList_append, List.append_assoc]
  exact splitWhitespaceAux_append a.toList b.toList []

theorem splitWhitespace_self {w : String} (hw : IsWord w) : splitWhitespace w = [w] := by
  obtain ⟨hne, hword⟩ := hw
  have haux := splitWhitespaceAux_word hword [] []
  rw [List.append_nil, List.append_nil, splitWhitespaceAux, List.isEmpty_reverse,
    List.isEmpty_eq_false_iff.mpr hne, if_neg Bool.false_ne_true, List.reverse_reverse,
    String.ofList_toList] at haux
  exact haux

/-- A word before a space is the first of the words. -/
theorem splitWhitespace_word {w : String} (hw : IsWord w) (rest : String) :
    splitWhitespace (w ++ " " ++ rest) = w :: splitWhitespace rest := by
  rw [splitWhitespace_append, splitWhitespace_self hw]
  rfl

theorem length_trimMatches_le (p : Char → Bool) (l : List Char) :
    (trimMatches p l).length ≤ l.length := by
  unfold trimMatches
  rw [List.length_reverse]
  refine (List.dropWhile_sublist p).length_le.trans ?_
  rw [List.length_reverse]
  exact (List.dropWhile_sublist p).length_le

/-! ### Pieces -/

theorem splitOn_eq_one_iff {c : Char} {l a : List Char} : l.splitOn c = [a] ↔ l = a ∧ c ∉ a := by
  constructor
  · intro h
    by_cases hc : c ∈ l
    · obtain ⟨x, y, rfl, hx⟩ := List.eq_append_cons_of_mem hc
      rw [List.splitOn_append_cons_self_of_not_mem hx] at h
      exact absurd (List.cons.inj h).2 (List.splitOn_ne_nil c y)
    · rw [List.splitOn_eq_singleton hc] at h
      cases h
      exact ⟨rfl, hc⟩
  · rintro ⟨rfl, hc⟩
    exact List.splitOn_eq_singleton hc

theorem splitOn_eq_two_iff {c : Char} {l a b : List Char} :
    l.splitOn c = [a, b] ↔ l = a ++ c :: b ∧ c ∉ a ∧ c ∉ b := by
  constructor
  · intro h
    by_cases hc : c ∈ l
    · obtain ⟨x, y, rfl, hx⟩ := List.eq_append_cons_of_mem hc
      rw [List.splitOn_append_cons_self_of_not_mem hx] at h
      obtain ⟨rfl, hy⟩ := List.cons.inj h
      obtain ⟨rfl, hb⟩ := splitOn_eq_one_iff.mp hy
      exact ⟨rfl, hx, hb⟩
    · rw [List.splitOn_eq_singleton hc] at h
      cases h
  · rintro ⟨rfl, ha, hb⟩
    rw [List.splitOn_append_cons_self_of_not_mem ha, List.splitOn_eq_singleton hb]

/-! ### Texts within texts -/

/-- A pattern is found wherever its characters stand together. -/
theorem contains_iff {pattern s : String} :
    contains pattern s = true ↔ pattern.toList <:+: s.toList := by
  unfold contains
  rw [List.any_eq_true]
  constructor
  · rintro ⟨tail, htail, hpref⟩
    exact (List.isPrefixOf_iff_prefix.mp hpref).isInfix.trans
      ((List.mem_tails _ _).mp htail).isInfix
  · rintro ⟨a, b, h⟩
    have htail : pattern.toList ++ b <:+ s.toList := ⟨a, by rw [← h, List.append_assoc]⟩
    refine ⟨pattern.toList ++ b, (List.mem_tails _ _).mpr htail, ?_⟩
    exact List.isPrefixOf_iff_prefix.mpr (List.prefix_append _ _)

theorem contains_append_left {pattern a : String} (h : contains pattern a = true) (b : String) :
    contains pattern (a ++ b) = true := by
  rw [contains_iff] at h ⊢
  rw [String.toList_append]
  exact h.trans (List.prefix_append _ _).isInfix

theorem contains_append_right {pattern b : String} (h : contains pattern b = true) (a : String) :
    contains pattern (a ++ b) = true := by
  rw [contains_iff] at h ⊢
  rw [String.toList_append]
  exact h.trans (List.suffix_append _ _).isInfix

theorem toAsciiLowercase_append (a b : String) :
    toAsciiLowercase (a ++ b) = toAsciiLowercase a ++ toAsciiLowercase b := by
  unfold toAsciiLowercase
  rw [String.toList_append, List.map_append, String.ofList_append]

/-- The rendering of a text begins with that of its beginning. -/
theorem debugStr_append (a b : String) :
    debugStr (a ++ b)
      = "\"" ++ String.join (a.toList.map escapeDebugChar)
        ++ String.join (b.toList.map escapeDebugChar) ++ "\"" := by
  unfold debugStr
  rw [String.toList_append, List.map_append, String.join_append]
  simp only [String.append_assoc]

end Frust.Rust.Str

namespace Frust.Rust

/-! ### The bytes of a character -/

theorem utf8EncodeChar_cases (c : Char) :
    (c.toNat < 128 ∧ String.utf8EncodeChar c = [UInt8.ofNat c.toNat]) ∨
      (128 ≤ c.toNat ∧ ∀ b ∈ String.utf8EncodeChar c, 128 ≤ b.toNat) := by
  have hofNat : ∀ n : Nat, 128 ≤ n % 256 → 128 ≤ (UInt8.ofNat n).toNat := by
    intro n hn
    simpa using hn
  have hval : c.val.toNat = c.toNat := rfl
  unfold String.utf8EncodeChar
  dsimp only
  rw [hval]
  split
  · exact .inl ⟨by omega, rfl⟩
  · -- a leading byte is 192 or more, and the bytes after it are 128 to 191
    refine .inr ⟨by omega, ?_⟩
    split
    · simp only [List.forall_mem_cons, List.not_mem_nil, false_imp_iff, implies_true, and_true]
      exact ⟨hofNat _ (by omega), hofNat _ (by omega)⟩
    · split
      · simp only [List.forall_mem_cons, List.not_mem_nil, false_imp_iff, implies_true, and_true]
        exact ⟨hofNat _ (by omega), hofNat _ (by omega), hofNat _ (by omega)⟩
      · simp only [List.forall_mem_cons, List.not_mem_nil, false_imp_iff, implies_true, and_true]
        exact ⟨hofNat _ (by omega), hofNat _ (by omega), hofNat _ (by omega), hofNat _ (by omega)⟩

/-- No byte of a character has its five highest bits. -/
theorem lt_of_mem_utf8EncodeChar {c : Char} {b : UInt8} (h : b ∈ String.utf8EncodeChar c) :
    b.toNat < 248 := by
  have hofNat : ∀ n : Nat, n % 256 < 248 → (UInt8.ofNat n).toNat < 248 := by
    intro n hn
    simpa using hn
  have hall : ∀ b ∈ String.utf8EncodeChar c, b.toNat < 248 := by
    unfold String.utf8EncodeChar
    dsimp only
    split
    · simp only [List.forall_mem_cons, List.not_mem_nil, false_imp_iff, implies_true, and_true]
      exact hofNat _ (by omega)
    · split
      · simp only [List.forall_mem_cons, List.not_mem_nil, false_imp_iff, implies_true, and_true]
        exact ⟨hofNat _ (by omega), hofNat _ (by omega)⟩
      · split
        · simp only [List.forall_mem_cons, List.not_mem_nil, false_imp_iff, implies_true, and_true]
          exact ⟨hofNat _ (by omega), hofNat _ (by omega), hofNat _ (by omega)⟩
        · simp only [List.forall_mem_cons, List.not_mem_nil, false_imp_iff, implies_true, and_true]
          exact ⟨hofNat _ (by omega), hofNat _ (by omega), hofNat _ (by omega), hofNat _ (by omega)⟩
  exact hall b h

/-- The bytes of a text are those of its characters. -/
theorem toUTF8_eq_flatMap (l : List Char) :
    (String.ofList l).toUTF8.data.toList = l.flatMap String.utf8EncodeChar := by
  show (String.ofList l).toByteArray.data.toList = _
  rw [String.toByteArray_ofList]
  exact List.toList_data_toByteArray

/-! ### Reading bytes -/

theorem fromUtf8Lossy_encode (c : Char) (l : List UInt8) :
    fromUtf8Lossy (String.utf8EncodeChar c ++ l) = c :: fromUtf8Lossy l := by
  have hlen : (String.utf8EncodeChar c).length = c.utf8Size := String.length_utf8EncodeChar c
  have hdecode : (String.utf8EncodeChar c ++ l).toByteArray.utf8DecodeChar? 0 = some c := by
    rw [List.toByteArray_append]
    exact ByteArray.utf8DecodeChar?_utf8EncodeChar_append
  cases hbytes : String.utf8EncodeChar c with
  | nil =>
      have hpos := c.utf8Size_pos
      rw [hbytes, List.length_nil] at hlen
      omega
  | cons b bs =>
      rw [hbytes, List.cons_append] at hdecode
      rw [hbytes, List.length_cons] at hlen
      have hdrop : c.utf8Size - 1 = bs.length := by omega
      rw [List.cons_append, fromUtf8Lossy, hdecode]
      show c :: fromUtf8Lossy ((bs ++ l).drop (c.utf8Size - 1)) = c :: fromUtf8Lossy l
      rw [hdrop, List.drop_left]

/-- The bytes of a text are read as the text. -/
theorem fromUtf8Lossy_flatMap (l : List Char) : fromUtf8Lossy (l.flatMap String.utf8EncodeChar) = l := by
  induction l with
  | nil => rw [List.flatMap_nil, fromUtf8Lossy]
  | cons c cs ih => rw [List.flatMap_cons, fromUtf8Lossy_encode, ih]

/-! ### Lengths in bytes -/

@[simp] theorem len_nil : len [] = 0 := rfl

@[simp] theorem len_cons (c : Char) (l : List Char) : len (c :: l) = c.utf8Size + len l := rfl

@[simp] theorem len_append (a b : List Char) : len (a ++ b) = len a + len b := by
  rw [len, List.map_append, List.sum_append]
  rfl

/-- Only characters that fill the bytes to the end are kept. -/
theorem truncate_eq_some_iff {n : Nat} {l a : List Char} (h : n ≤ len l) :
    truncate n l = some a ↔ a <+: l ∧ len a = n := by
  induction l generalizing n a with
  | nil =>
      obtain rfl : n = 0 := Nat.le_zero.mp h
      rw [truncate, Option.some.injEq]
      constructor
      · rintro rfl
        exact ⟨List.nil_prefix, rfl⟩
      · rintro ⟨hpre, -⟩
        exact (List.prefix_nil.mp hpre).symm
  | cons c cs ih =>
      have hpos := c.utf8Size_pos
      cases n with
      | zero =>
          rw [truncate, Option.some.injEq]
          constructor
          · rintro rfl
            exact ⟨List.nil_prefix, rfl⟩
          · rintro ⟨-, hlen⟩
            cases a with
            | nil => rfl
            | cons d ds =>
                have hpos' := d.utf8Size_pos
                rw [len_cons] at hlen
                omega
      | succ n =>
          rw [len_cons] at h
          rw [truncate]
          split
          · rename_i hle
            have hle' : n + 1 - c.utf8Size ≤ len cs := by omega
            rw [Option.map_eq_some_iff]
            constructor
            · rintro ⟨a', ha', rfl⟩
              obtain ⟨hpre, hlen⟩ := (ih hle').mp ha'
              refine ⟨List.prefix_cons_iff.mpr (.inr ⟨a', rfl, hpre⟩), ?_⟩
              rw [len_cons, hlen]
              omega
            · rintro ⟨hpre, hlen⟩
              rcases List.prefix_cons_iff.mp hpre with rfl | ⟨a', rfl, hpre'⟩
              · rw [len_nil] at hlen
                omega
              · rw [len_cons] at hlen
                exact ⟨a', (ih hle').mpr ⟨hpre', by omega⟩, rfl⟩
          · -- the first character does not fit
            rename_i hgt
            constructor
            · intro hnone
              cases hnone
            · rintro ⟨hpre, hlen⟩
              rcases List.prefix_cons_iff.mp hpre with rfl | ⟨a', rfl, -⟩
              · rw [len_nil] at hlen
                omega
              · rw [len_cons] at hlen
                omega

theorem utf8ByteSize_ofList (l : List Char) : (String.ofList l).utf8ByteSize = len l := by
  induction l with
  | nil => rfl
  | cons c cs ih =>
      have happ : String.ofList (c :: cs) = String.ofList [c] ++ String.ofList cs := by
        rw [← String.ofList_append, List.singleton_append]
      rw [happ, String.utf8ByteSize_append, ih, len_cons]
      congr 1
      simp

end Frust.Rust
