import Frust.Lib.Cut
import Frust.Proofs.Orm.Schema
import Frust.Proofs.Rust.Str
import Mathlib.Data.List.TakeWhile

/-!
# `Frust.Proofs.Orm.Split`: from a block of statements to a snapshot

`splitStatements` cuts with an automaton, the `splitter`, whose state is the depth of braces and
the place in a string. A text that passes it from the start state back to it is a whole statement
(`Whole`), and whole statements that were joined with `;` and a line break are found again
(`splitStatements_joined`), whatever comes after them.

A block that closes what it opens (`Closed`) has whole statements only, and what stands after it and
a semicolon is read as if it stood alone (`defined_append`). So each object of its snapshot can be
defined again by its own text (`restorable_fromSql`).

`fromSql` inserts the objects that the statements define one after the other
(`fromSql_objects`), so under each key stands the last one (`getElem?_insertAll`).
-/

set_option autoImplicit false

namespace Frust.Orm

open Frust.Lib Frust.Rust

/-! ### The splitter -/

/-- Where the splitter is with regard to strings. -/
inductive Place where
  | code | quoted | escaped
  deriving DecidableEq

/-- The state of the splitter after a character. -/
def splitNext : Nat × Place → Char → Nat × Place
  | (d, .code), c =>
      if c = '\'' then (d, .quoted)
      else if c = '{' then (d + 1, .code)
      else if c = '}' then (d - 1, .code)
      else (d, .code)
  | (d, .quoted), c =>
      if c = '\\' then (d, .escaped) else if c = '\'' then (d, .code) else (d, .quoted)
  | (d, .escaped), _ => (d, .quoted)

/-- The automaton of `splitStatements`. -/
def splitter : Cutter (Nat × Place) Char where
  next := splitNext
  ends s c := decide (s = (0, .code)) && decide (c = ';')

@[simp] theorem splitter_next (s : Nat × Place) (c : Char) :
    splitter.next s c = splitNext s c := rfl

@[simp] theorem splitter_ends (s : Nat × Place) (c : Char) :
    splitter.ends s c = (decide (s = (0, .code)) && decide (c = ';')) := rfl

/-- The place that the flag of `splitStatementsAux` stands for. -/
def placeOf (inStr : Bool) : Place := if inStr then .quoted else .code

theorem splitStatementsAux_eq (l : List Char) (d : Nat) (inStr : Bool) (cur : List Char) :
    splitStatementsAux l d inStr cur
      = (splitter.cut l (d, placeOf inStr) cur).map String.ofList := by
  -- The cases of the source are those of the cutter, with the flag as its place.
  fun_induction splitStatementsAux l d inStr cur with
  | case1 d inStr cur h => simp [Cutter.cut, h]
  | case2 d inStr cur h => simp [Cutter.cut, h]
  | case3 d cur => simp [Cutter.cut, placeOf]
  | case4 c rest d cur ih =>
      rw [ih]
      simp [Cutter.cut, splitNext, placeOf]
  | case5 rest d inStr cur h₁ h₂ ih =>
      rw [ih]
      cases inStr <;> simp [Cutter.cut, splitNext, placeOf]
  | case6 c rest d inStr cur h₁ h₂ hquote hopen ih =>
      rw [ih]
      cases inStr <;> simp_all [Cutter.cut, splitNext, placeOf]
  | case7 c rest d inStr cur h₁ h₂ hquote hopen hclose ih =>
      rw [ih]
      cases inStr <;> simp_all [Cutter.cut, splitNext, placeOf]
  | case8 c rest d inStr cur h₁ h₂ hquote hopen hclose hends ih =>
      rw [ih]
      cases inStr <;> simp_all [Cutter.cut, splitNext, placeOf]
  | case9 c rest d inStr cur h₁ h₂ hquote hopen hclose hends ih =>
      rw [ih]
      -- In a string, the backslash was an earlier case.
      have hplain : inStr = true → c ≠ '\\' := by
        rintro hstr rfl
        cases rest with
        | nil => exact h₁ hstr rfl rfl
        | cons c rest => exact h₂ c rest hstr rfl rfl
      cases inStr with
      | true => simp_all [Cutter.cut, splitNext, placeOf]
      | false =>
          -- A semicolon at depth zero was one, too.
          have hgo : (decide ((d, Place.code) = (0, Place.code)) && decide (c = ';')) = false := by
            simp only [Prod.mk.injEq, and_true, Bool.and_eq_false_iff, decide_eq_false_iff_not]
            by_cases hd : d = 0
            · exact Or.inr fun hc => hends (by simp [hd, hc])
            · exact Or.inl hd
          rw [Cutter.cut, splitter_ends, placeOf, if_neg Bool.false_ne_true, hgo,
            if_neg Bool.false_ne_true, splitter_next, splitNext, if_neg hquote]
          simp_all

theorem splitStatements_eq (sql : String) :
    splitStatements sql = (splitter.cut sql.toList (0, .code) []).map String.ofList :=
  splitStatementsAux_eq _ _ _ _

/-! ### Whole statements -/

/-- The splitter reads the text at depth `d` without an end, and closes what it opened. -/
def Passes (d : Nat) (s : String) : Prop :=
  splitter.pass (d, .code) s.toList = some (d, .code)

instance (d : Nat) (s : String) : Decidable (Passes d s) :=
  inferInstanceAs (Decidable (_ = _))

/-- A text that is one statement, without whitespace around it. -/
structure Whole (s : String) : Prop where
  passes : Passes 0 s
  tight : Str.Tight s

/-- The statements of a block, without whitespace around them. -/
def trimmed (sql : String) : List String := (splitStatements sql).map Str.trim

/-- Whole statements are found again in front of any others. -/
theorem trimmed_joined {s : String} {ss rest : List String} (hs : ∀ x ∈ s :: ss, Whole x)
    (hrest : ∀ x ∈ rest, x.toList ≠ []) :
    trimmed (";
".intercalate (s :: ss ++ rest))
      = s :: ss ++ trimmed (";
".intercalate rest) := by
  have hpiece : ∀ x ∈ s :: ss, x.toList ≠ [] ∧
      splitter.pass (0, .code) x.toList = some (0, .code) :=
    fun x hx => ⟨(hs x hx).tight.ends.ne_empty, (hs x hx).passes⟩
  have hbreak : ";
".toList = ';' :: ['
'] := by decide
  have hline : Str.isWhitespace '
' = true := by decide
  have hcut : splitter.cut ((';' :: ['\n']).intercalate (s.toList :: ss.map String.toList
      ++ rest.map String.toList)) (0, .code) []
        = s.toList :: (ss.map String.toList).map (['\n'] ++ ·)
          ++ if rest.map String.toList = [] then []
            else splitter.cut (['\n'] ++ (';' :: ['\n']).intercalate (rest.map String.toList))
              (0, .code) [] :=
    Cutter.cut_joined rfl rfl rfl (hpiece s List.mem_cons_self).1 (hpiece s List.mem_cons_self).2
      fun l hl => by
        obtain ⟨x, hx, rfl⟩ := List.mem_map.mp hl
        exact hpiece x (List.mem_cons_of_mem _ hx)
  -- the statements are tight, and a line break before them is taken off
  have htrim : ∀ x ∈ s :: ss, Str.trim x = x := fun x hx => Str.trim_tight (hs x hx).tight
  have hhead : ((s.toList :: (ss.map String.toList).map (['
'] ++ ·)).map String.ofList).map
      Str.trim = s :: ss := by
    rw [List.map_cons, List.map_cons, String.ofList_toList, htrim s List.mem_cons_self,
      List.map_map, List.map_map, List.map_map]
    congr 1
    calc ss.map _ = ss.map id := List.map_congr_left fun x hx => by
          have hx' := htrim x (List.mem_cons_of_mem _ hx)
          show Str.trim (String.ofList ('
' :: x.toList)) = x
          rw [Str.trim_cons hline, String.ofList_toList, hx']
      _ = ss := List.map_id ss
  unfold trimmed
  rw [splitStatements_eq, splitStatements_eq, String.toList_intercalate,
    String.toList_intercalate, hbreak, List.map_append, List.map_cons, hcut, List.map_append,
    List.map_append, hhead]
  refine congrArg (s :: ss ++ ·) ?_
  cases rest with
  | nil => rfl
  | cons r rest =>
      have hne : (';' :: ['
']).intercalate ((r :: rest).map String.toList) ≠ [] := by
        have hr := hrest r List.mem_cons_self
        cases rest with
        | nil => simpa [List.intercalate] using hr
        | cons r' rest =>
            rw [List.map_cons, List.map_cons, List.intercalate_cons_cons]
            simp
      obtain ⟨p, ps, hone, hcur⟩ := Cutter.cut_cur (C := splitter) hne (0, .code) ['\n']
      have hsome : ¬ (r :: rest).map String.toList = [] := by simp
      rw [if_neg hsome, hone]
      calc _ = (((['\n'].reverse ++ p) :: ps).map String.ofList).map Str.trim :=
            congrArg (fun l => (l.map String.ofList).map Str.trim) hcur
        _ = Str.trim (String.ofList ('\n' :: p)) :: (ps.map String.ofList).map Str.trim := rfl
        _ = ((p :: ps).map String.ofList).map Str.trim := by rw [Str.trim_cons hline]; rfl

/-- Whole statements alone are found again. -/
theorem trimmed_whole {ss : List String} (hs : ∀ x ∈ ss, Whole x) :
    trimmed (";
".intercalate ss) = ss := by
  cases ss with
  | nil => rfl
  | cons s ss =>
      have h : trimmed (";\n".intercalate (s :: ss ++ [])) = s :: ss ++ trimmed (";\n".intercalate []) :=
        trimmed_joined hs fun x hx => absurd hx List.not_mem_nil
      rw [List.append_nil] at h
      rw [h]
      exact List.append_nil _

/-! ### Snapshots -/

/-- Objects inserted one after the other. -/
def insertAll (m : Std.ExtTreeMap String SchemaObject) (os : List SchemaObject) :
    Std.ExtTreeMap String SchemaObject :=
  os.foldl (fun m o => m.insert o.key o) m

/-- A snapshot has the objects that the statements of the block define. -/
theorem fromSql_objects (table sql : String) :
    (SchemaSnapshot.fromSql table sql).objects
      = insertAll ∅ ((trimmed sql).filterMap parseDefine) := by
  have hfold : ∀ (stmts : List String) (s : SchemaSnapshot),
      (stmts.foldl SchemaSnapshot.addStatement s).objects
        = insertAll s.objects ((stmts.map Str.trim).filterMap parseDefine) := by
    intro stmts
    induction stmts with
    | nil => intro s; rfl
    | cons raw rest ih =>
        intro s
        rw [List.foldl_cons, ih, List.map_cons]
        have hone : (s.addStatement raw).objects
            = insertAll s.objects ((parseDefine (Str.trim raw)).toList) := by
          unfold SchemaSnapshot.addStatement
          dsimp only
          split
          · rename_i hempty
            rw [String.isEmpty_iff.mp hempty]
            rfl
          · cases parseDefine (Str.trim raw) with
            | none => rfl
            | some o => rfl
        rw [hone]
        cases hparse : parseDefine (Str.trim raw) with
        | none => rw [List.filterMap_cons_none hparse]; rfl
        | some o => rw [List.filterMap_cons_some hparse]; rfl
  exact hfold _ _

/-- Under each key stands the last object inserted with it. -/
theorem getElem?_insertAll (m : Std.ExtTreeMap String SchemaObject) (os : List SchemaObject)
    (k : String) :
    (insertAll m os)[k]? = ((os.filter (·.key = k)).getLast?).or m[k]? := by
  unfold insertAll
  induction os generalizing m with
  | nil => rfl
  | cons o os ih =>
      rw [List.foldl_cons, ih, Std.ExtTreeMap.getElem?_insert]
      by_cases hk : o.key = k
      · have hcmp : compare o.key k = .eq := Std.LawfulEqCmp.compare_eq_iff_eq.mpr hk
        rw [if_pos hcmp, List.filter_cons_of_pos (by simpa using hk), List.getLast?_cons]
        cases (os.filter (·.key = k)).getLast? <;> rfl
      · have hcmp : ¬ compare o.key k = .eq :=
          fun h => hk (Std.LawfulEqCmp.compare_eq_iff_eq.mp h)
        rw [if_neg hcmp, List.filter_cons_of_neg (by simpa using hk)]

/-- The keys of a snapshot are the names and kinds of its objects, each there once. -/
theorem nodup_keys (s : SchemaSnapshot) :
    ((s.objects.toList.map Prod.snd).map SchemaObject.key).Nodup := by
  have hkeys : (s.objects.toList.map Prod.snd).map SchemaObject.key
      = s.objects.toList.map Prod.fst := by
    rw [List.map_map]
    refine List.map_congr_left fun e he => ?_
    exact s.keyed e.1 e.2 (Std.ExtTreeMap.mem_toList_iff_getElem?_eq_some.mp he)
  rw [hkeys]
  refine List.Pairwise.map _ (fun a b h => ?_) Std.ExtTreeMap.distinct_keys_toList
  exact fun heq => h (Std.LawfulEqCmp.compare_eq_iff_eq.mpr heq)

/-- A snapshot has exactly the objects that its statements define, if and only if no two of them
have one key. -/
theorem objects_perm_iff {s : SchemaSnapshot} {os : List SchemaObject}
    (h : s.objects = insertAll ∅ os) :
    (s.objects.toList.map Prod.snd).Perm os ↔ (os.map SchemaObject.key).Nodup := by
  constructor
  · intro hperm
    exact (hperm.map SchemaObject.key).nodup_iff.mp (nodup_keys s)
  · intro hnodup
    have hleft : (s.objects.toList.map Prod.snd).Nodup := (nodup_keys s).of_map
    refine (List.perm_ext_iff_of_nodup hleft hnodup.of_map).mpr fun o => ?_
    have hobject : o ∈ s.objects.toList.map Prod.snd ↔ s.objects[o.key]? = some o := by
      constructor
      · intro ho
        obtain ⟨⟨k, o'⟩, hmem, rfl⟩ := List.mem_map.mp ho
        have hk := Std.ExtTreeMap.mem_toList_iff_getElem?_eq_some.mp hmem
        rw [s.keyed k o' hk]
        exact hk
      · intro ho
        exact List.mem_map.mpr ⟨_, Std.ExtTreeMap.mem_toList_iff_getElem?_eq_some.mpr ho, rfl⟩
    rw [hobject, h, getElem?_insertAll, Std.ExtTreeMap.getElem?_empty, Option.or_none]
    constructor
    · intro hlast
      exact (List.mem_filter.mp (List.mem_of_getLast? hlast)).1
    · intro ho
      -- the only object with its key
      have hone : os.filter (·.key = o.key) = [o] := by
        clear h hobject hleft
        induction os with
        | nil => cases ho
        | cons o' os ih =>
            rw [List.map_cons, List.nodup_cons] at hnodup
            rcases List.mem_cons.mp ho with rfl | ho
            · rw [List.filter_cons_of_pos (by simp)]
              congr 1
              refine List.filter_eq_nil_iff.mpr fun x hx hkey => ?_
              exact hnodup.1 (List.mem_map.mpr ⟨x, hx, by simpa using hkey⟩)
            · have hne : ¬ o'.key = o.key := fun hkey =>
                hnodup.1 (List.mem_map.mpr ⟨o, ho, hkey.symm⟩)
              rw [List.filter_cons_of_neg (by simpa using hne)]
              exact ih hnodup.2 ho
      rw [hone]
      rfl

/-! ### Closed blocks -/

/-- The splitter has closed, at the end of the block, what it opened. -/
def Closed (sql : String) : Prop := sql.toList.foldl splitNext (0, .code) = (0, .code)

instance (sql : String) : Decidable (Closed sql) := inferInstanceAs (Decidable (_ = _))

/-- The objects that the statements of a block define, in their order. -/
def defined (sql : String) : List SchemaObject := (trimmed sql).filterMap parseDefine

theorem Whole.closed {s : String} (h : Whole s) : Closed s := Cutter.foldl_of_pass h.passes

/-- A piece ends at the start state only, and the next one begins in it. -/
theorem splitter_start (s : Nat × Place) (c : Char) (h : splitter.ends s c = true) :
    s = (0, .code) ∧ splitter.next s c = (0, .code) := by
  rw [splitter_ends, Bool.and_eq_true, decide_eq_true_eq, decide_eq_true_eq] at h
  obtain ⟨rfl, rfl⟩ := h
  exact ⟨rfl, rfl⟩

/-- A semicolon or whitespace leaves the start state alone, and leads to it from nowhere else. -/
theorem splitNext_back {c : Char} (hc : c = ';' ∨ Str.isWhitespace c = true) :
    splitNext (0, .code) c = (0, .code) ∧
      ∀ s, splitNext s c = (0, .code) → s = (0, .code) := by
  have hplain : c ≠ '\'' ∧ c ≠ '{' ∧ c ≠ '}' ∧ c ≠ '\\' := by
    rcases hc with rfl | hc
    · decide
    · refine ⟨?_, ?_, ?_, ?_⟩ <;> rintro rfl <;> exact absurd hc (by decide)
  obtain ⟨hquote, hopen, hclose, hslash⟩ := hplain
  constructor
  · simp [splitNext, hquote, hopen, hclose]
  · rintro ⟨d, place⟩ h
    cases place with
    | code => simpa [splitNext, hquote, hopen, hclose] using h
    | quoted => simp [splitNext, hquote, hslash] at h
    | escaped => simp [splitNext] at h

theorem splitter_space {c : Char} (hc : Str.isWhitespace c = true) :
    splitter.ends (0, .code) c = false ∧ splitter.next (0, .code) c = (0, .code) := by
  refine ⟨?_, (splitNext_back (.inr hc)).1⟩
  have hne : c ≠ ';' := by
    rintro rfl
    exact absurd hc (by decide)
  simp [hne]

/-- Whitespace in front of a text is not read. -/
theorem pass_dropWhile (l : List Char) :
    splitter.pass (0, .code) (l.dropWhile Str.isWhitespace) = splitter.pass (0, .code) l := by
  induction l with
  | nil => rfl
  | cons c l ih =>
      by_cases hc : Str.isWhitespace c = true
      · obtain ⟨hends, hnext⟩ := splitter_space hc
        rw [List.dropWhile_cons_of_pos hc, ih]
        show _ = if _ then _ else _
        rw [hends, if_neg Bool.false_ne_true, hnext]
      · rw [List.dropWhile_cons_of_neg hc]

/-- What passes back to the start state does so without the whitespace around it. -/
theorem passes_trim {s : String} (h : Passes 0 s) : Passes 0 (Str.trim s) := by
  unfold Passes at h ⊢
  rw [← pass_dropWhile] at h
  unfold Str.trim Str.trimMatches
  rw [String.toList_ofList]
  generalize s.toList.dropWhile Str.isWhitespace = l at h ⊢
  -- the list is what stays and the whitespace behind it
  have hl : l = (l.reverse.dropWhile Str.isWhitespace).reverse
      ++ (l.reverse.takeWhile Str.isWhitespace).reverse := by
    rw [← List.reverse_append, List.takeWhile_append_dropWhile, List.reverse_reverse]
  rw [hl] at h
  obtain ⟨st, hstay, hspace⟩ := Cutter.pass_append_inv h
  have hst : st = (0, .code) := by
    refine Cutter.eq_of_foldl (fun c hc s hs => ?_) (Cutter.foldl_of_pass hspace)
    have hc' := List.mem_takeWhile_imp (List.mem_reverse.mp hc)
    exact (splitNext_back (.inr hc')).2 s hs
  rw [← hst]
  rw [hst] at hstay ⊢
  exact hstay

/-- What a statement defines carries it. -/
theorem defineSql_of_parseDefine {s : String} {o : SchemaObject} (h : parseDefine s = some o) :
    o.defineSql = s := by
  unfold parseDefine at h
  split at h
  · split at h
    · split at h
      · cases h
        rfl
      · cases h
    · cases h
  · cases h

/-- The statements of a closed block are whole, but for empty ones. -/
theorem whole_of_mem_trimmed {sql s : String} (h : Closed sql) (hs : s ∈ trimmed sql)
    (hne : s ≠ "") : Whole s := by
  unfold trimmed at hs
  rw [splitStatements_eq, List.map_map] at hs
  obtain ⟨p, hp, rfl⟩ := List.mem_map.mp hs
  have hpass : Passes 0 (String.ofList p) := by
    show splitter.pass _ (String.ofList p).toList = _
    rw [String.toList_ofList]
    exact Cutter.pass_of_mem_cut splitter_start _ _ h [] rfl p hp
  exact ⟨passes_trim hpass, Str.tight_trim hne⟩

/-- Each object is defined by a whole statement of its own. -/
def SchemaSnapshot.Restorable (s : SchemaSnapshot) : Prop :=
  ∀ (k : String) (o : SchemaObject), s.objects[k]? = some o →
    Whole o.defineSql ∧ parseDefine o.defineSql = some o

theorem restorable_fromSql {sql : String} (h : Closed sql) (table : String) :
    (SchemaSnapshot.fromSql table sql).Restorable := by
  intro k o ho
  rw [fromSql_objects, getElem?_insertAll, Std.ExtTreeMap.getElem?_empty, Option.or_none] at ho
  have hmem := (List.mem_filter.mp (List.mem_of_getLast? ho)).1
  obtain ⟨s, hs, hparse⟩ := List.mem_filterMap.mp hmem
  rw [defineSql_of_parseDefine hparse]
  refine ⟨whole_of_mem_trimmed h hs ?_, hparse⟩
  rintro rfl
  cases hparse

/-- The objects of a block, piece by piece. -/
theorem defined_eq (sql : String) : defined sql
    = (splitter.cut sql.toList (0, .code) []).filterMap fun p =>
        parseDefine (Str.trim (String.ofList p)) := by
  unfold defined trimmed
  rw [splitStatements_eq, List.map_map, List.filterMap_map]
  simp only [Function.comp_def]

/-- What stands after a closed block and its last semicolon is read as if it stood alone. -/
theorem defined_append {v : String} (h : Closed v) (m : String) :
    defined (v ++ ";" ++ m) = defined v ++ defined m := by
  have hstate : v.toList.foldl splitter.next (0, .code) = (0, .code) := h
  have hends : splitter.ends (v.toList.foldl splitter.next (0, .code)) ';' = true := by
    rw [hstate]
    decide
  obtain ⟨ps, last, hone, hboth⟩ := Cutter.cut_at v.toList (0, Place.code) hends m.toList []
  have htext : (v ++ ";" ++ m).toList = v.toList ++ ';' :: m.toList := by
    rw [String.toList_append, String.toList_append, List.append_assoc]
    rfl
  have hnext : splitter.next (0, Place.code) ';' = (0, Place.code) := rfl
  rw [hstate, hnext] at hboth
  rw [defined_eq, defined_eq v, defined_eq m, htext, hone, hboth, List.filterMap_append,
    List.filterMap_append, List.append_assoc]
  refine congrArg (_ ++ ·) ?_
  generalize splitter.cut m.toList (0, Place.code) [] = ms
  -- an empty last piece defines nothing
  by_cases hlast : last = []
  · subst hlast
    rw [if_pos rfl]
    exact List.filterMap_cons_none (by decide)
  · rw [if_neg hlast, ← List.filterMap_append, List.singleton_append]

theorem defined_whole {s : String} (h : Whole s) : defined s = (parseDefine s).toList := by
  have hall : ∀ x ∈ [s], Whole x := by simpa using h
  have htrimmed : trimmed s = [s] := by simpa using trimmed_whole hall
  unfold defined
  rw [htrimmed]
  cases hs : parseDefine s with
  | none => exact List.filterMap_cons_none hs
  | some o => exact List.filterMap_cons_some hs

/-- Whole statements, each with its semicolon, are those that they define. -/
theorem defined_join {ss : List String} (h : ∀ s ∈ ss, Whole s) :
    defined (String.join (ss.map (· ++ ";"))) = ss.filterMap parseDefine := by
  induction ss with
  | nil => rfl
  | cons s ss ih =>
      have hs := h s List.mem_cons_self
      have hjoin : String.join ((s :: ss).map (· ++ ";"))
          = s ++ ";" ++ String.join (ss.map (· ++ ";")) := by
        rw [List.map_cons, String.join_cons]
      rw [hjoin, defined_append hs.closed, defined_whole hs,
        ih fun s' hs' => h s' (List.mem_cons_of_mem _ hs')]
      cases hparse : parseDefine s with
      | none => exact (List.filterMap_cons_none hparse).symm
      | some o => exact (List.filterMap_cons_some hparse).symm

/-- Whitespace in front of a block is not read. -/
theorem defined_space {c : Char} (hc : Str.isWhitespace c = true) (l : List Char) :
    defined (String.ofList (c :: l)) = defined (String.ofList l) := by
  obtain ⟨hends, hnext⟩ := splitter_space hc
  have hcut : splitter.cut (c :: l) (0, .code) [] = splitter.cut l (0, .code) [c] := by
    rw [Cutter.cut, hends, if_neg Bool.false_ne_true, hnext]
  unfold defined trimmed
  rw [splitStatements_eq, splitStatements_eq, String.toList_ofList, String.toList_ofList, hcut]
  cases l with
  | nil =>
      show [Str.trim (String.ofList [c])].filterMap parseDefine = []
      rw [Str.trim_cons hc]
      rfl
  | cons d l =>
      -- the first piece takes the whitespace with it, and `trim` takes it off
      obtain ⟨p, ps, hone, hcur⟩ := Cutter.cut_cur (C := splitter) (List.cons_ne_nil d l) (0, .code) [c]
      rw [hone, hcur]
      show (Str.trim (String.ofList (c :: p)) :: _).filterMap parseDefine = _
      rw [Str.trim_cons hc]
      rfl

theorem defined_spaces {w : List Char} (hw : ∀ c ∈ w, Str.isWhitespace c = true) (l : List Char) :
    defined (String.ofList (w ++ l)) = defined (String.ofList l) := by
  induction w with
  | nil => rfl
  | cons c w ih =>
      rw [List.cons_append, defined_space (hw c List.mem_cons_self)]
      exact ih fun d hd => hw d (List.mem_cons_of_mem _ hd)

/-- A block is closed where its parts are. -/
theorem Closed.append {a b : String} (ha : Closed a) (hb : Closed b) : Closed (a ++ b) := by
  unfold Closed at ha hb ⊢
  rw [String.toList_append, List.foldl_append, ha, hb]

/-- The keys are those of the objects inserted. -/
theorem mem_insertAll {os : List SchemaObject} {k : String} :
    k ∈ insertAll ∅ os ↔ ∃ o ∈ os, o.key = k := by
  rw [Std.ExtTreeMap.mem_iff_isSome_getElem?, getElem?_insertAll, Std.ExtTreeMap.getElem?_empty,
    Option.or_none, List.getLast?_isSome, ne_eq, List.filter_eq_nil_iff]
  simp only [decide_eq_true_eq, not_forall, not_not, exists_prop]

/-- A snapshot has the keys of the objects that the block defines. -/
theorem mem_fromSql {table sql k : String} :
    k ∈ (SchemaSnapshot.fromSql table sql).objects ↔ ∃ o ∈ defined sql, o.key = k := by
  rw [fromSql_objects]
  exact mem_insertAll

end Frust.Orm
