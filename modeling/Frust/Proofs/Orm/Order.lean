import Frust.Orm.Order
import Mathlib.Data.List.Perm.Subperm
import Mathlib.Data.List.Nodup
import Mathlib.Data.List.Induction
import Mathlib.Tactic.Ring

/-!
# `Frust.Proofs.Orm.Order`: the order is a permutation of the resources

`Kahn.Inv` is the loop invariant of `kahn`: a name is popped or queued once, its
counter is the number of its dependencies not popped yet, and it is popped or
queued exactly when that number is zero. Each counter is decremented as often as
the name occurs among the dependents, so it never wraps, and the fuel is enough
(`kahn_spec`).

`orderResources_perm`: for resources with distinct names the result is a
permutation of the input. Without that hypothesis a later resource replaces an
earlier one of its name, and `mem_of_mem_orderResources` is what is left.
-/

set_option autoImplicit false

namespace Frust.Orm

/-! ### The two maps -/

/-- The dependents of `d` gain one `n` for each mention of `d`. -/
theorem count_foldl_addDependent (n : String) (deps : List String)
    (m : Std.ExtTreeMap String (List String)) (d x : String) :
    ((deps.foldl (addDependent n) m).getD d []).count x
      = (m.getD d []).count x + if n = x then deps.count d else 0 := by
  induction deps generalizing m with
  | nil => simp
  | cons e rest ih =>
      rw [List.foldl_cons, ih]
      by_cases he : e = d
      · subst he
        by_cases hn : n = x
        · simp [addDependent, hn]
          ring
        · simp [addDependent, hn]
      · have hget : (addDependent n m e).getD d [] = m.getD d [] := by
          simp [addDependent, Std.ExtTreeMap.getD_insert, he]
        rw [hget, List.count_cons_of_ne he]

section
variable {names : List String} {ns : List (String × List String)}

/-- The maps after the nodes `ns`. -/
def Graph.fill (names : List String) (ns : List (String × List String)) : Graph :=
  ns.foldl (Graph.addNode names) ⟨∅, ∅⟩

theorem Graph.fill_concat (node : String × List String) :
    Graph.fill names (ns ++ [node]) = (Graph.fill names ns).addNode names node := by
  simp [Graph.fill]

/-- A node's counter starts at the number of its dependencies. -/
theorem Graph.indeg_fill (hnd : (ns.map (·.1)).Nodup) :
    ∀ node ∈ ns, (Graph.fill names ns).indeg[node.1]? = some (realDeps names node).length := by
  induction ns using List.reverseRecOn with
  | nil => intro node h; exact absurd h List.not_mem_nil
  | append_singleton init last ih =>
      rw [List.map_append, List.nodup_append] at hnd
      intro node hmem
      rw [fill_concat]
      rcases List.mem_append.mp hmem with h | h
      · have hne : last.1 ≠ node.1 := fun he =>
          hnd.2.2 node.1 (List.mem_map_of_mem h) last.1 (by simp) he.symm
        simpa [addNode, Std.ExtTreeMap.getElem?_insert, hne] using ih hnd.1 node h
      · obtain rfl := List.mem_singleton.mp h
        simp [addNode]

/-- A name that is no node is a dependent of nothing. -/
theorem Graph.count_fill_of_not_mem {x : String} (hx : x ∉ ns.map (·.1)) (d : String) :
    ((Graph.fill names ns).dependents.getD d []).count x = 0 := by
  induction ns using List.reverseRecOn with
  | nil => simp [fill]
  | append_singleton init last ih =>
      rw [List.map_append, List.mem_append, not_or] at hx
      have hne : last.1 ≠ x := fun h => hx.2 (by simp [h])
      rw [fill_concat]
      simp only [addNode]
      rw [count_foldl_addDependent, ih hx.1]
      simp [hne]

/-- A node is a dependent of `d` as often as it mentions `d`. -/
theorem Graph.count_fill (hnd : (ns.map (·.1)).Nodup) (d : String) :
    ∀ node ∈ ns, ((Graph.fill names ns).dependents.getD d []).count node.1
      = (realDeps names node).count d := by
  induction ns using List.reverseRecOn with
  | nil => intro node h; exact absurd h List.not_mem_nil
  | append_singleton init last ih =>
      rw [List.map_append, List.nodup_append] at hnd
      intro node hmem
      rw [fill_concat]
      simp only [addNode]
      rw [count_foldl_addDependent]
      rcases List.mem_append.mp hmem with h | h
      · have hne : last.1 ≠ node.1 := fun he =>
          hnd.2.2 node.1 (List.mem_map_of_mem h) last.1 (by simp) he.symm
        simpa [hne] using ih hnd.1 node h
      · obtain rfl := List.mem_singleton.mp h
        have hnot : node.1 ∉ init.map (·.1) := fun hin =>
          hnd.2.2 node.1 hin node.1 (by simp) rfl
        rw [count_fill_of_not_mem hnot]
        simp

end

/-! ### One pop -/

/-- Relaxing `deps`, none of them beyond its counter: each counter falls by the
number of mentions, and the names whose counter reaches zero are queued once. -/
theorem foldl_relax (deps : List String) (indeg : Std.ExtTreeMap String Nat)
    (queue : List String) (hle : ∀ m, deps.count m ≤ indeg.getD m 0) :
    (∀ m, (deps.foldl relax (indeg, queue)).1[m]? = indeg[m]?.map (· - deps.count m)) ∧
    ∃ fresh : List String, (deps.foldl relax (indeg, queue)).2 = queue ++ fresh ∧ fresh.Nodup ∧
      ∀ m, m ∈ fresh ↔ m ∈ deps ∧ indeg[m]? = some (deps.count m) := by
  induction deps generalizing indeg queue with
  | nil => simp
  | cons x rest ih =>
      obtain ⟨e, he⟩ : ∃ e, indeg[x]? = some e := by
        cases h : indeg[x]? with
        | some e => exact ⟨e, rfl⟩
        | none =>
            have := hle x
            simp [Std.ExtTreeMap.getD_eq_getD_getElem?, h] at this
      have hex : rest.count x + 1 ≤ e := by
        have := hle x
        simpa [Std.ExtTreeMap.getD_eq_getD_getElem?, he] using this
      have hpred : usizePred e = e - 1 := by
        have : e ≠ 0 := by omega
        simp [usizePred, this]
      have hstep : relax (indeg, queue) x
          = (indeg.insert x (e - 1), if e - 1 = 0 then queue ++ [x] else queue) := by
        simp [relax, he, hpred]
      have hget : ∀ m, (indeg.insert x (e - 1))[m]? = if x = m then some (e - 1) else indeg[m]? := by
        intro m
        simp [Std.ExtTreeMap.getElem?_insert]
      have hle' : ∀ m, rest.count m ≤ (indeg.insert x (e - 1)).getD m 0 := by
        intro m
        rw [Std.ExtTreeMap.getD_eq_getD_getElem?, hget]
        by_cases hm : x = m
        · subst hm
          simp
          omega
        · have := hle m
          rw [Std.ExtTreeMap.getD_eq_getD_getElem?, List.count_cons_of_ne hm] at this
          simpa [hm] using this
      obtain ⟨hcounters, fresh, hqueue, hnd, hfresh⟩ :=
        ih (indeg.insert x (e - 1)) (if e - 1 = 0 then queue ++ [x] else queue) hle'
      rw [List.foldl_cons, hstep]
      refine ⟨fun m => ?_, ?_⟩
      · rw [hcounters, hget]
        by_cases hm : x = m
        · subst hm
          simp [he]
          omega
        · simp [hm, List.count_cons_of_ne hm]
      · by_cases hzero : e - 1 = 0
        · -- the counter of `x` is used up, so `x` does not occur again
          have hcount : rest.count x = 0 := by omega
          have hx : x ∉ rest := List.count_eq_zero.mp hcount
          refine ⟨x :: fresh, ?_, ?_, fun m => ?_⟩
          · rw [hqueue, if_pos hzero, List.append_assoc]
            rfl
          · exact List.nodup_cons.mpr ⟨fun h => hx ((hfresh x).mp h).1, hnd⟩
          · by_cases hm : x = m
            · subst hm
              simp [he, hcount]
              omega
            · simp [hfresh, hget, hm, Ne.symm hm, List.count_cons_of_ne hm]
        · refine ⟨fresh, ?_, hnd, fun m => ?_⟩
          · rw [hqueue, if_neg hzero]
          · rw [hfresh, hget]
            by_cases hm : x = m
            · subst hm
              simp only [if_true, Option.some.injEq, List.count_cons_self, List.mem_cons,
                true_or, true_and, he]
              constructor
              · rintro ⟨_, h⟩
                omega
              · intro h
                exact ⟨List.count_pos_iff.mp (by omega), by omega⟩
            · simp [hm, Ne.symm hm, List.count_cons_of_ne hm]

/-! ### The loop -/

/-- The dependencies of a node that the order lacks. -/
def unmet (names order : List String) (node : String × List String) : Nat :=
  ((realDeps names node).filter (· ∉ order)).length

/-- Popping `n` meets every mention of it. -/
theorem unmet_concat {names order : List String} {n : String} (hn : n ∉ order)
    (node : String × List String) :
    unmet names (order ++ [n]) node + (realDeps names node).count n = unmet names order node := by
  simp only [unmet]
  induction realDeps names node with
  | nil => rfl
  | cons d rest ih =>
      by_cases hd : d = n
      · subst hd
        simp [hn] at ih ⊢
        omega
      · by_cases ho : d ∈ order
        · simpa [hd, ho, List.count_cons_of_ne hd] using ih
        · simp [hd, ho, List.count_cons_of_ne hd] at ih ⊢
          omega

/-- The invariant of the loop. -/
structure Kahn.Inv (nodes : List (String × List String)) (indeg : Std.ExtTreeMap String Nat)
    (queue order : List String) : Prop where
  /-- No name is popped or queued twice. -/
  nodup : (order ++ queue).Nodup
  /-- Only nodes are. -/
  subset : order ++ queue ⊆ nodes.map (·.1)
  /-- A counter is the number of dependencies to come. -/
  counter : ∀ node ∈ nodes, indeg[node.1]? = some (unmet (nodes.map (·.1)) order node)
  /-- A name is popped or queued when no dependency is to come. -/
  ready : ∀ node ∈ nodes, node.1 ∈ order ++ queue ↔ unmet (nodes.map (·.1)) order node = 0

namespace Kahn

variable {nodes : List (String × List String)} {indeg : Std.ExtTreeMap String Nat}
  {queue order : List String}

/-- The loop starts in the invariant. -/
theorem Inv.init (hnd : (nodes.map (·.1)).Nodup) :
    Inv nodes (Graph.build nodes).indeg
      ((nodes.map (·.1)).filter fun n => (Graph.build nodes).indeg.getD n 0 = 0) [] where
  nodup := by simpa using hnd.filter _
  subset := by simp
  counter node hmem := by
    rw [show Graph.build nodes = Graph.fill (nodes.map (·.1)) nodes from rfl,
      Graph.indeg_fill hnd node hmem]
    simp [unmet]
  ready node hmem := by
    have hget := @Graph.indeg_fill (nodes.map (·.1)) nodes hnd node hmem
    rw [show Graph.build nodes = Graph.fill (nodes.map (·.1)) nodes from rfl]
    have hin : node.1 ∈ nodes.map (·.1) := List.mem_map_of_mem hmem
    simp only [List.nil_append, List.mem_filter, hin, true_and, decide_eq_true_eq,
      Std.ExtTreeMap.getD_eq_getD_getElem?, hget, Option.getD_some]
    simp [unmet]

theorem Inv.step (hnd : (nodes.map (·.1)).Nodup) {n : String}
    (h : Inv nodes indeg (n :: queue) order) :
    Inv nodes
      (((Graph.build nodes).dependents.getD n []).foldl relax (indeg, queue)).1
      (((Graph.build nodes).dependents.getD n []).foldl relax (indeg, queue)).2
      (order ++ [n]) := by
  have hbuild : Graph.build nodes = Graph.fill (nodes.map (·.1)) nodes := rfl
  have hcount : ∀ node ∈ nodes, ((Graph.build nodes).dependents.getD n []).count node.1
      = (realDeps (nodes.map (·.1)) node).count n := by
    rw [hbuild]; exact Graph.count_fill hnd n
  have hother : ∀ x ∉ nodes.map (·.1), ((Graph.build nodes).dependents.getD n []).count x = 0 := by
    intro x hx
    rw [hbuild]; exact Graph.count_fill_of_not_mem hx n
  generalize (Graph.build nodes).dependents.getD n [] = deps at hcount hother ⊢
  have hnorder : n ∉ order := fun hin =>
    (List.nodup_append.mp h.nodup).2.2 n hin n (by simp) rfl
  have hunmet := @unmet_concat (nodes.map (·.1)) order n hnorder
  have hle : ∀ m, deps.count m ≤ indeg.getD m 0 := by
    intro m
    by_cases hm : m ∈ nodes.map (·.1)
    · obtain ⟨node, hmem, rfl⟩ := List.mem_map.mp hm
      rw [hcount node hmem, Std.ExtTreeMap.getD_eq_getD_getElem?, h.counter node hmem]
      have := hunmet node
      simp
      omega
    · rw [hother m hm]
      exact Nat.zero_le _
  obtain ⟨hcounters, fresh, hqueue, hfreshNd, hfresh⟩ := foldl_relax deps indeg queue hle
  rw [hqueue]
  -- a fresh name has an unmet dependency on `n`, so it was neither popped nor queued
  have hnew : ∀ m ∈ fresh, ∃ node ∈ nodes, node.1 = m ∧ m ∉ order ++ n :: queue := by
    intro m hm
    obtain ⟨hdep, _⟩ := (hfresh m).mp hm
    have hpos : 0 < deps.count m := List.count_pos_iff.mpr hdep
    have hmn : m ∈ nodes.map (·.1) := by
      by_contra hcon
      rw [hother m hcon] at hpos
      exact absurd hpos (by omega)
    obtain ⟨node, hmem, rfl⟩ := List.mem_map.mp hmn
    refine ⟨node, hmem, rfl, fun hin => ?_⟩
    have hz := (h.ready node hmem).mp hin
    rw [hcount node hmem] at hpos
    have := hunmet node
    omega
  refine ⟨?_, ?_, fun node hmem => ?_, fun node hmem => ?_⟩
  · have hassoc : order ++ [n] ++ (queue ++ fresh) = (order ++ n :: queue) ++ fresh := by simp
    rw [hassoc, List.nodup_append]
    refine ⟨h.nodup, hfreshNd, fun a ha b hb hab => ?_⟩
    obtain ⟨_, _, _, hnot⟩ := hnew b hb
    exact hnot (hab ▸ ha)
  · intro m hm
    have hm' : m ∈ (order ++ n :: queue) ++ fresh := by simpa using hm
    rcases List.mem_append.mp hm' with hold | hf
    · exact h.subset hold
    · obtain ⟨node, hmem, rfl, _⟩ := hnew m hf
      exact List.mem_map_of_mem hmem
  · rw [hcounters, h.counter node hmem, hcount node hmem]
    have := hunmet node
    simp
    omega
  · have hmem' : node.1 ∈ order ++ [n] ++ (queue ++ fresh)
        ↔ node.1 ∈ order ++ n :: queue ∨ node.1 ∈ fresh := by
      simp [or_assoc]
    rw [hmem', h.ready node hmem, hfresh, h.counter node hmem, hcount node hmem]
    have hu := hunmet node
    have hpos : node.1 ∈ deps ↔ 0 < (realDeps (nodes.map (·.1)) node).count n := by
      rw [← hcount node hmem]
      exact List.count_pos_iff.symm
    rw [hpos, Option.some.injEq]
    omega

/-- With fuel for every node, the loop ends with an empty queue. -/
theorem kahn_spec (hnd : (nodes.map (·.1)).Nodup) (fuel : Nat)
    (hfuel : nodes.length ≤ fuel + order.length) (h : Inv nodes indeg queue order) :
    ∃ indeg', Inv nodes indeg' []
      (kahn (Graph.build nodes).dependents fuel indeg queue order) := by
  induction fuel generalizing indeg queue order with
  | zero =>
      have hlen := (h.nodup.subperm h.subset).length_le
      simp only [List.length_append, List.length_map] at hlen
      have hq : queue = [] := List.eq_nil_of_length_eq_zero (by omega)
      subst hq
      exact ⟨indeg, h⟩
  | succ fuel ih =>
      cases queue with
      | nil => exact ⟨indeg, h⟩
      | cons n queue =>
          refine ih ?_ (h.step hnd)
          simp
          omega

end Kahn

/-! ### The order -/

theorem mem_foldl_pushMissing (names order : List String) (x : String) :
    x ∈ names.foldl pushMissing order ↔ x ∈ order ∨ x ∈ names := by
  induction names generalizing order with
  | nil => simp
  | cons n rest ih =>
      rw [List.foldl_cons, ih]
      simp only [pushMissing]
      split
      · rename_i hn
        have hn' : n ∈ order := by simpa using hn
        constructor
        · rintro (h | h)
          · exact Or.inl h
          · exact Or.inr (List.mem_cons_of_mem _ h)
        · rintro (h | h)
          · exact Or.inl h
          · rcases List.mem_cons.mp h with rfl | h
            · exact Or.inl hn'
            · exact Or.inr h
      · simp [or_assoc]

/-- Every node is in the order, when the names are distinct. -/
theorem mem_toposortKeys {nodes : List (String × List String)} (hnd : (nodes.map (·.1)).Nodup)
    {x : String} (hx : x ∈ nodes.map (·.1)) : x ∈ toposortKeys nodes := by
  obtain ⟨indeg, hinv⟩ := Kahn.kahn_spec hnd (2 * nodes.length) (by simp; omega)
    (Kahn.Inv.init hnd)
  simp only [toposortKeys]
  split
  · exact (mem_foldl_pushMissing _ _ _).mpr (Or.inr hx)
  · rename_i hlen
    have hsub := hinv.nodup.subperm hinv.subset
    have hperm := hsub.perm_of_length_le (by simpa using Nat.le_of_not_lt hlen)
    simpa using hperm.mem_iff.mpr hx

/-- Each resource in the map stands under its name. -/
def NameKeyed (m : Std.ExtTreeMap String ResourceSpec) : Prop :=
  ∀ (k : String) (r : ResourceSpec), m[k]? = some r → r.name = k

theorem mem_takeByName (order : List String) {m : Std.ExtTreeMap String ResourceSpec}
    (hm : NameKeyed m) (r : ResourceSpec) :
    r ∈ takeByName order m ↔ r.name ∈ order ∧ m[r.name]? = some r := by
  -- On the order: a resource that is taken is erased, so it is taken once.
  induction order generalizing m with
  | nil => simp [takeByName]
  | cons n rest ih =>
      simp only [takeByName]
      cases hget : m[n]? with
      | none =>
          simp only
          rw [ih hm, List.mem_cons]
          constructor
          · rintro ⟨h, hr⟩
            exact ⟨Or.inr h, hr⟩
          · rintro ⟨rfl | h, hr⟩
            · rw [hget] at hr
              exact absurd hr (by simp)
            · exact ⟨h, hr⟩
      | some r0 =>
          have hname : r0.name = n := hm n r0 hget
          have herase : ∀ k, (m.erase n)[k]? = if n = k then none else m[k]? := by
            intro k
            simp [Std.ExtTreeMap.getElem?_erase]
          have hm' : NameKeyed (m.erase n) := by
            intro k r' h
            rw [herase] at h
            split at h
            · exact absurd h (by simp)
            · exact hm k r' h
          simp only
          rw [List.mem_cons, ih hm', herase, List.mem_cons]
          by_cases hn : n = r.name
          · subst hn
            simp only [if_true, hget, Option.some.injEq]
            constructor
            · rintro (rfl | ⟨_, h⟩)
              · exact ⟨Or.inl trivial, rfl⟩
              · exact absurd h (by simp)
            · rintro ⟨_, rfl⟩
              exact Or.inl rfl
          · have hne : r ≠ r0 := fun h => hn (by rw [h, hname])
            simp [hn, hne, Ne.symm hn]

/-- `takeByName` takes one resource a name. -/
theorem nodup_takeByName (order : List String) {m : Std.ExtTreeMap String ResourceSpec}
    (hm : NameKeyed m) : ((takeByName order m).map (·.name)).Nodup := by
  induction order generalizing m with
  | nil => simp [takeByName]
  | cons n rest ih =>
      simp only [takeByName]
      cases hget : m[n]? with
      | none => exact ih hm
      | some r0 =>
          have hm' : NameKeyed (m.erase n) := by
            intro k r' h
            rw [Std.ExtTreeMap.getElem?_erase] at h
            split at h
            · exact absurd h (by simp)
            · exact hm k r' h
          simp only [List.map_cons, List.nodup_cons]
          refine ⟨fun hin => ?_, ih hm'⟩
          obtain ⟨r, hr, hname⟩ := List.mem_map.mp hin
          have hget' := ((mem_takeByName rest hm' r).mp hr).2
          rw [hname, hm n r0 hget] at hget'
          simp at hget'

/-- What the map of the resources holds. -/
theorem byName_spec (regs : List ResourceSpec) :
    NameKeyed (byName regs) ∧
    (∀ (k : String) (r : ResourceSpec), (byName regs)[k]? = some r → r ∈ regs) ∧
    ((regs.map (·.name)).Nodup → ∀ r ∈ regs, (byName regs)[r.name]? = some r) := by
  -- On the resources from the end, as the last one of a name stays.
  induction regs using List.reverseRecOn with
  | nil => simp [byName, NameKeyed]
  | append_singleton init last ih =>
      obtain ⟨hkey, hmem, hget⟩ := ih
      have hconcat : byName (init ++ [last]) = (byName init).insert last.name last := by
        simp [byName]
      have hinsert : ∀ k, (byName (init ++ [last]))[k]?
          = if last.name = k then some last else (byName init)[k]? := by
        intro k
        rw [hconcat]
        simp [Std.ExtTreeMap.getElem?_insert]
      refine ⟨fun k r h => ?_, fun k r h => ?_, fun hnd r hr => ?_⟩
      · rw [hinsert] at h
        split at h
        · cases h
          assumption
        · exact hkey k r h
      · rw [hinsert] at h
        split at h
        · cases h
          simp
        · exact List.mem_append_left _ (hmem k r h)
      · rw [List.map_append, List.nodup_append] at hnd
        rw [hinsert]
        rcases List.mem_append.mp hr with h | h
        · have hne : last.name ≠ r.name := fun he =>
            hnd.2.2 r.name (List.mem_map_of_mem h) last.name (by simp) he.symm
          rw [if_neg hne]
          exact hget hnd.1 r h
        · obtain rfl := List.mem_singleton.mp h
          simp

/-- The order holds resources of the input only. -/
theorem mem_of_mem_orderResources {regs : List ResourceSpec} {r : ResourceSpec}
    (h : r ∈ orderResources regs) : r ∈ regs :=
  (byName_spec regs).2.1 _ _ ((mem_takeByName _ (byName_spec regs).1 r).mp h).2

/-- The order holds one resource a name. -/
theorem nodup_orderResources (regs : List ResourceSpec) :
    ((orderResources regs).map (·.name)).Nodup :=
  nodup_takeByName _ (byName_spec regs).1

/-- Resources with distinct names: the order is a permutation of them. -/
theorem orderResources_perm {regs : List ResourceSpec} (hnd : (regs.map (·.name)).Nodup) :
    (orderResources regs).Perm regs := by
  refine (List.perm_ext_iff_of_nodup (nodup_orderResources regs).of_map hnd.of_map).mpr
    fun r => ⟨mem_of_mem_orderResources, fun hr => ?_⟩
  have hnodes : ((regs.map fun r => (r.name, recordDeps r)).map (·.1)) = regs.map (·.name) := by
    simp
  refine (mem_takeByName _ (byName_spec regs).1 r).mpr ⟨?_, (byName_spec regs).2.2 hnd r hr⟩
  exact mem_toposortKeys (hnodes ▸ hnd) (hnodes ▸ List.mem_map_of_mem hr)

end Frust.Orm
