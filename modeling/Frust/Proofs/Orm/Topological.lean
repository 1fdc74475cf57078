import Frust.Proofs.Orm.Order
import Mathlib.Order.WellFoundedSet

/-!
# `Frust.Proofs.Orm.Topological`: dependencies first

`Kahn.Met` is what the loop says of the order itself: each name stands after its dependencies. At
the end a name is missing only behind a missing dependency, so without a cycle none is missing
(`mem_of_acyclic`). Together with the permutation, `orderResources` does what it should exactly for
resources with distinct names (`ordersAll_iff`).
-/

set_option autoImplicit false

namespace Frust.Orm

/-! ### No panic -/

/-- Relaxing never panics where no name occurs more often than its counter says. -/
theorem foldlM_checkedRelax (deps : List String) (indeg : Std.ExtTreeMap String Nat)
    (queue : List String) (hle : ∀ m, deps.count m ≤ indeg.getD m 0) :
    deps.foldlM checkedRelax (indeg, queue) = some (deps.foldl relax (indeg, queue)) := by
  induction deps generalizing indeg queue with
  | nil => rfl
  | cons x rest ih =>
      -- The counter of the next dependent covers this occurrence and all that come later.
      have hx : rest.count x + 1 ≤ indeg.getD x 0 := by simpa using hle x
      have hne : indeg[x]? ≠ some 0 := by
        intro hzero
        rw [Std.ExtTreeMap.getD_eq_getD_getElem?, hzero] at hx
        exact absurd hx (by simp)
      have hcheck : checkedRelax (indeg, queue) x = some (relax (indeg, queue) x) := if_neg hne
      rw [List.foldlM_cons, hcheck, List.foldl_cons]
      show rest.foldlM checkedRelax (relax (indeg, queue) x) = _
      cases hrelax : relax (indeg, queue) x with
      | mk indeg' queue' =>
          refine ih indeg' queue' fun m => ?_
          obtain ⟨e, he⟩ : ∃ e, indeg[x]? = some e := by
            cases h : indeg[x]? with
            | some e => exact ⟨e, rfl⟩
            | none =>
                rw [Std.ExtTreeMap.getD_eq_getD_getElem?, h] at hx
                exact absurd hx (by simp)
          have hindeg : indeg' = indeg.insert x (usizePred e) := by
            have h := congrArg Prod.fst hrelax
            simp only [relax, he] at h
            exact h.symm
          have hpred : usizePred e = e - 1 := by
            have h0 : e ≠ 0 := fun h => hne (by rw [he, h])
            simp [usizePred, h0]
          -- One occurrence less, and a counter that is one less.
          have hm := hle m
          rw [hindeg, hpred, Std.ExtTreeMap.getD_insert]
          by_cases hxm : x = m
          · subst hxm
            rw [Std.ExtTreeMap.getD_eq_getD_getElem?, he] at hx
            simp at hx ⊢
            omega
          · rw [List.count_cons_of_ne hxm] at hm
            simpa [hxm] using hm

namespace Kahn

variable {nodes : List (String × List String)} {indeg : Std.ExtTreeMap String Nat}
  {queue order : List String}

/-- No dependent of a name to be popped is beyond its counter. -/
theorem Inv.count_le (hnd : (nodes.map (·.1)).Nodup) {n : String}
    (h : Inv nodes indeg (n :: queue) order) (m : String) :
    ((Graph.build nodes).dependents.getD n []).count m ≤ indeg.getD m 0 := by
  have hbuild : Graph.build nodes = Graph.fill (nodes.map (·.1)) nodes := rfl
  by_cases hm : m ∈ nodes.map (·.1)
  · obtain ⟨node, hmem, rfl⟩ := List.mem_map.mp hm
    have hnorder : n ∉ order := fun hin =>
      (List.nodup_append.mp h.nodup).2.2 n hin n (by simp) rfl
    -- The name to be popped is not in the order yet, so each link to it is still counted.
    have hunmet := @unmet_concat (nodes.map (·.1)) order n hnorder node
    rw [hbuild, Graph.count_fill hnd n node hmem, Std.ExtTreeMap.getD_eq_getD_getElem?,
      h.counter node hmem]
    simp
    omega
  · -- What is no node is nobody's dependent.
    rw [hbuild, Graph.count_fill_of_not_mem hm n]
    exact Nat.zero_le _

/-- With fuel for every node, the loop neither panics nor runs out. -/
theorem checkedKahn_eq (hnd : (nodes.map (·.1)).Nodup) (fuel : Nat)
    (hfuel : nodes.length ≤ fuel + order.length) (h : Inv nodes indeg queue order) :
    checkedKahn (Graph.build nodes).dependents fuel indeg queue order
      = some (kahn (Graph.build nodes).dependents fuel indeg queue order) := by
  induction fuel generalizing indeg queue order with
  | zero =>
      -- The order and the queue have distinct names of nodes: without fuel the order has all.
      have hlen := (h.nodup.subperm h.subset).length_le
      simp only [List.length_append, List.length_map] at hlen
      have hq : queue = [] := List.eq_nil_of_length_eq_zero (by omega)
      subst hq
      rfl
  | succ fuel ih =>
      cases queue with
      | nil => rfl
      | cons n queue =>
          rw [checkedKahn, foldlM_checkedRelax _ _ _ (h.count_le hnd), kahn]
          exact ih (by simp; omega) (h.step hnd)

/-! ### Dependencies first -/

/-- Every name of the order stands after the dependencies of its node. -/
def Met (nodes : List (String × List String)) (order : List String) : Prop :=
  ∀ pre n post, order = pre ++ n :: post → ∀ node ∈ nodes, node.1 = n →
    ∀ d ∈ realDeps (nodes.map (·.1)) node, d ∈ pre

/-- A name that is popped has no dependency to come. -/
theorem Met.step (hmet : Met nodes order) {n : String} (h : Inv nodes indeg (n :: queue) order) :
    Met nodes (order ++ [n]) := by
  intro pre x post hsplit node hmem hname d hd
  rcases List.eq_nil_or_concat post with rfl | ⟨post, y, rfl⟩
  · obtain ⟨rfl, hx⟩ := List.append_inj' hsplit rfl
    obtain rfl := (List.cons.inj hx).1
    -- The popped name: its counter is zero, and the counter counts what the order lacks.
    have hzero := (h.ready node hmem).mp (by rw [hname]; simp)
    have hnone := List.eq_nil_of_length_eq_zero hzero
    by_contra hnot
    have hin : d ∈ (realDeps (nodes.map (·.1)) node).filter (· ∉ order) :=
      List.mem_filter.mpr ⟨hd, by simpa using hnot⟩
    rw [hnone] at hin
    cases hin
  · -- A name that was there before.
    have hcut : order ++ [n] = (pre ++ x :: post) ++ [y] := by simpa using hsplit
    obtain ⟨rfl, _⟩ := List.append_inj' hcut rfl
    exact hmet pre x post rfl node hmem hname d hd

theorem met_kahn (hnd : (nodes.map (·.1)).Nodup) (fuel : Nat) (hmet : Met nodes order)
    (h : Inv nodes indeg queue order) :
    Met nodes (kahn (Graph.build nodes).dependents fuel indeg queue order) := by
  induction fuel generalizing indeg queue order with
  | zero => exact hmet
  | succ fuel ih =>
      cases queue with
      | nil => exact hmet
      | cons n queue => exact ih (hmet.step h) (h.step hnd)

/-- `n` has the dependency `d`. -/
def Edge (nodes : List (String × List String)) (d n : String) : Prop :=
  ∃ node ∈ nodes, node.1 = n ∧ d ∈ realDeps (nodes.map (·.1)) node

theorem mem_of_edge {d n : String} (h : Edge nodes d n) : d ∈ nodes.map (·.1) := by
  obtain ⟨node, _, _, hd⟩ := h
  have hin := (List.mem_filter.mp hd).2
  simp only [Bool.and_eq_true, List.contains_iff_mem] at hin
  exact hin.2

/-- Without a cycle, the loop leaves no name over. -/
theorem mem_of_acyclic (h : Inv nodes indeg [] order)
    (hacyclic : ∀ n, ¬ Relation.TransGen (Edge nodes) n n) {n : String}
    (hn : n ∈ nodes.map (·.1)) : n ∈ order := by
  have hstrict : IsStrictOrder String (Relation.TransGen (Edge nodes)) :=
    { irrefl := hacyclic, trans := fun _ _ _ => Relation.TransGen.trans }
  have hwf : {x | x ∈ nodes.map (·.1)}.WellFoundedOn (Relation.TransGen (Edge nodes)) :=
    (List.finite_toSet _).wellFoundedOn
  -- along the dependencies: a name is in the order when they are
  refine hwf.induction (P := (· ∈ order)) hn fun x hx ih => ?_
  obtain ⟨node, hmem, rfl⟩ := List.mem_map.mp hx
  -- All its dependencies are in the order, so its counter is zero and it was in the queue.
  have hready : unmet (nodes.map (·.1)) order node = 0 := by
    unfold unmet
    rw [List.length_eq_zero_iff, List.filter_eq_nil_iff]
    intro d hd hnot
    have hedge : Edge nodes d node.1 := ⟨node, hmem, rfl, hd⟩
    exact of_decide_eq_true hnot (ih d (mem_of_edge hedge) (.single hedge))
  simpa using (h.ready node hmem).mpr hready

/-- Without a cycle the order is a permutation of the names. -/
theorem perm_of_acyclic (hnd : (nodes.map (·.1)).Nodup) (h : Inv nodes indeg [] order)
    (hacyclic : ∀ n, ¬ Relation.TransGen (Edge nodes) n n) : order.Perm (nodes.map (·.1)) := by
  have hnodup := h.nodup
  have hsubset := h.subset
  rw [List.append_nil] at hnodup hsubset
  exact (List.perm_ext_iff_of_nodup hnodup hnd).mpr fun n =>
    ⟨fun hn => hsubset hn, fun hn => mem_of_acyclic h hacyclic hn⟩

end Kahn

/-- Names that are distinct: the sort neither panics nor runs out of fuel. -/
theorem checkedToposortKeys_eq {nodes : List (String × List String)}
    (hnd : (nodes.map (·.1)).Nodup) :
    checkedToposortKeys nodes = some (toposortKeys nodes) := by
  unfold checkedToposortKeys toposortKeys
  dsimp only
  rw [Kahn.checkedKahn_eq hnd (2 * nodes.length) (by simp; omega) (Kahn.Inv.init hnd)]
  rfl

/-- Names that are distinct, without a cycle: all of them, each after its dependencies. -/
theorem toposortKeys_acyclic {nodes : List (String × List String)} (hnd : (nodes.map (·.1)).Nodup)
    (hacyclic : ∀ n, ¬ Relation.TransGen (Kahn.Edge nodes) n n) :
    (toposortKeys nodes).Perm (nodes.map (·.1)) ∧ Kahn.Met nodes (toposortKeys nodes) := by
  have hinit := Kahn.Inv.init hnd
  obtain ⟨indeg, hinv⟩ := Kahn.kahn_spec hnd (2 * nodes.length) (by simp; omega) hinit
  have hperm := Kahn.perm_of_acyclic hnd hinv hacyclic
  have hmet : Kahn.Met nodes [] := by
    intro pre n post hsplit
    exact absurd hsplit (by simp)
  have hrun := Kahn.met_kahn hnd (2 * nodes.length) hmet hinit
  have hlength := hperm.length_eq
  rw [List.length_map] at hlength
  -- All nodes were popped, so the remainder is not appended.
  simp only [toposortKeys]
  rw [if_neg (by omega)]
  exact ⟨hperm, hrun⟩

/-! ### The resources -/

/-- `takeByName` goes along the order, where each of its names is there once. -/
theorem map_takeByName {order : List String} {m : Std.ExtTreeMap String ResourceSpec}
    (hm : NameKeyed m) (hnd : order.Nodup) (hin : ∀ n ∈ order, (m[n]?).isSome) :
    (takeByName order m).map (·.name) = order := by
  induction order generalizing m with
  | nil => rfl
  | cons n rest ih =>
      obtain ⟨hn, hrest⟩ := List.nodup_cons.mp hnd
      obtain ⟨r, hr⟩ := Option.isSome_iff_exists.mp (hin n List.mem_cons_self)
      have herase : ∀ k, (m.erase n)[k]? = if n = k then none else m[k]? := by
        intro k
        simp [Std.ExtTreeMap.getElem?_erase]
      -- Erasing a name keeps the others, which are the rest of the order.
      have hm' : NameKeyed (m.erase n) := by
        intro k r' h
        rw [herase] at h
        split at h
        · cases h
        · exact hm k r' h
      simp only [takeByName, hr, List.map_cons, hm n r hr]
      rw [ih hm' hrest fun k hk => ?_]
      rw [herase, if_neg fun h : n = k => hn (h ▸ hk)]
      exact hin k (List.mem_cons_of_mem _ hk)

/-- The resource `a` links to the resource `b`, and both are in the list. -/
def DependsOn (regs : List ResourceSpec) (a b : ResourceSpec) : Prop :=
  a ∈ regs ∧ b ∈ regs ∧ b.name ∈ recordDeps a

/-- The links among the resources have no cycle. -/
def Acyclic (regs : List ResourceSpec) : Prop := ∀ a, ¬ Relation.TransGen (DependsOn regs) a a

/-- The sort terminates without a panic and loses nothing, and without a cycle each resource comes
after all that it links to. -/
structure OrdersAll (regs : List ResourceSpec) : Prop where
  checked : checkedOrderResources regs = some (orderResources regs)
  perm : (orderResources regs).Perm regs
  after : Acyclic regs → ∀ pre a post, orderResources regs = pre ++ a :: post →
    ∀ b, DependsOn regs a b → b ∈ pre

section
variable {regs : List ResourceSpec}

/-- The nodes of the sort. -/
def nodesOf (regs : List ResourceSpec) : List (String × List String) :=
  regs.map fun r => (r.name, recordDeps r)

theorem map_nodesOf (regs : List ResourceSpec) : (nodesOf regs).map (·.1) = regs.map (·.name) := by
  simp [nodesOf]

/-- A dependency of a node is a link of its resource. -/
theorem edge_nodesOf {d n : String} (h : Kahn.Edge (nodesOf regs) d n) :
    ∃ a b, DependsOn regs a b ∧ a.name = n ∧ b.name = d := by
  have hd := Kahn.mem_of_edge h
  obtain ⟨node, hmem, hname, hdep⟩ := h
  rw [map_nodesOf] at hd
  obtain ⟨b, hb, hbname⟩ := List.mem_map.mp hd
  obtain ⟨a, ha, rfl⟩ := List.mem_map.mp hmem
  exact ⟨a, b, ⟨ha, hb, hbname ▸ (List.mem_filter.mp hdep).1⟩, hname, hbname⟩

/-- A cycle of names is a cycle of resources, when a name is one resource. -/
theorem acyclic_nodesOf (hnd : (regs.map (·.name)).Nodup) (h : Acyclic regs) (n : String) :
    ¬ Relation.TransGen (Kahn.Edge (nodesOf regs)) n n := by
  have hinj := List.inj_on_of_nodup_map hnd
  -- A path of names is one of resources: where two links meet, the name is one resource.
  have hlift : ∀ d n, Relation.TransGen (Kahn.Edge (nodesOf regs)) d n →
      ∃ a b, Relation.TransGen (DependsOn regs) a b ∧ a ∈ regs ∧ b ∈ regs ∧ a.name = n ∧
        b.name = d := by
    intro d n htrans
    induction htrans with
    | single hedge =>
        obtain ⟨a, b, hlink, ha, hb⟩ := edge_nodesOf hedge
        exact ⟨a, b, .single hlink, hlink.1, hlink.2.1, ha, hb⟩
    | tail _ hedge ih =>
        obtain ⟨a, b, hpath, ha, hb, haname, hbname⟩ := ih
        obtain ⟨a', b', hlink, ha', hb'⟩ := edge_nodesOf hedge
        obtain rfl := hinj hlink.2.1 ha (hb'.trans haname.symm)
        exact ⟨a', b, .head hlink hpath, hlink.1, hb, ha', hbname⟩
  intro hcycle
  obtain ⟨a, b, hpath, ha, hb, haname, hbname⟩ := hlift n n hcycle
  obtain rfl := hinj ha hb (haname.trans hbname.symm)
  exact h a hpath

/-- A link between resources with distinct names is a dependency of the node. -/
theorem realDeps_of_dependsOn {a b : ResourceSpec} (h : DependsOn regs a b) :
    (a.name, recordDeps a) ∈ nodesOf regs ∧
      b.name ∈ realDeps ((nodesOf regs).map (·.1)) (a.name, recordDeps a) := by
  obtain ⟨ha, hb, hdep⟩ := h
  refine ⟨List.mem_map_of_mem ha, List.mem_filter.mpr ⟨hdep, ?_⟩⟩
  have hself : b.name ≠ a.name := of_decide_eq_true (List.mem_filter.mp hdep).2
  rw [map_nodesOf]
  simpa [hself] using ⟨b, hb, rfl⟩

/-- The sort is right exactly when the names are distinct. -/
theorem ordersAll_iff (regs : List ResourceSpec) :
    OrdersAll regs ↔ (regs.map (·.name)).Nodup := by
  constructor
  · intro h
    -- The result has one resource a name, whatever the input.
    exact (h.perm.map (·.name)).nodup_iff.mp (nodup_orderResources regs)
  · intro hnd
    have hnodes : ((nodesOf regs).map (·.1)).Nodup := map_nodesOf regs ▸ hnd
    refine ⟨?_, orderResources_perm hnd, ?_⟩
    · have hsort := checkedToposortKeys_eq hnodes
      unfold checkedOrderResources orderResources
      rw [show (regs.map fun r => (r.name, recordDeps r)) = nodesOf regs from rfl, hsort]
      rfl
    · intro hacyclic pre a post hsplit b hlink
      obtain ⟨hperm, hmet⟩ := toposortKeys_acyclic hnodes (acyclic_nodesOf hnd hacyclic)
      obtain ⟨hkeyed, _, hget⟩ := byName_spec regs
      -- Distinct names: the names of the result are the order of the sort.
      have hnames : (orderResources regs).map (·.name) = toposortKeys (nodesOf regs) := by
        refine map_takeByName hkeyed (hperm.nodup_iff.mpr hnodes) fun n hn => ?_
        have hn' := hperm.mem_iff.mp hn
        rw [map_nodesOf] at hn'
        obtain ⟨r, hr, rfl⟩ := List.mem_map.mp hn'
        rw [hget hnd r hr]
        rfl
      rw [hsplit, List.map_append, List.map_cons] at hnames
      obtain ⟨hnode, hdep⟩ := realDeps_of_dependsOn hlink
      obtain ⟨b', hb', hname⟩ := List.mem_map.mp
        (hmet _ _ _ hnames.symm _ hnode rfl _ hdep)
      have hb'regs : b' ∈ regs := mem_of_mem_orderResources (by rw [hsplit]; simp [hb'])
      exact List.inj_on_of_nodup_map hnd hb'regs hlink.2.1 hname ▸ hb'

/-- Two apps declare a `note`, and one of them links to `user`. -/
def twoNotes : List ResourceSpec :=
  [⟨"crm", "note", "DEFINE TABLE note;", ["user"]⟩, ⟨"hr", "note", "DEFINE TABLE note;", []⟩,
    ⟨"platform", "user", "DEFINE TABLE user;", []⟩]

/-- One `note` is lost, and the counter of the other falls below zero. -/
theorem not_ordersAll_twoNotes :
    checkedOrderResources twoNotes = none ∧
      (⟨"crm", "note", "DEFINE TABLE note;", ["user"]⟩ : ResourceSpec) ∉ orderResources twoNotes ∧
      ¬ OrdersAll twoNotes := by
  have hpanic : checkedOrderResources twoNotes = none := by decide +kernel
  refine ⟨hpanic, by decide +kernel, fun h => ?_⟩
  have hchecked := h.checked
  rw [hpanic] at hchecked
  cases hchecked

end

end Frust.Orm
