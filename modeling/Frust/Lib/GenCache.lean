import Frust.Lib.Pool
import Mathlib.Order.Nat

/-!
# `Frust.Lib.GenCache`: caches that are validated by a generation

Every tenant has contents, which change by `commit`, and a generation, which goes up by `bump`.
A reader samples the generation, loads, and keeps what it loaded under the generation that it
sampled. So an entry of generation `g` was loaded after `g` began (`Since`). It may be newer
than `g`, never older, and this is what every operation keeps (`Good`).

The contents are kept by version, and with each generation the version at which it began, so
that "as new as a commit" is a comparison of versions (`Since.fresh`). No operation depends on
the two.

A `Protocol` is a family of programs over such a cache, each of which asks only what it may ask
after what it has seen. Whatever their interleaving, a program that samples after a bump is
given only what is as new as the commits before it (`Sound.fresh`).
-/

set_option autoImplicit false

namespace Frust.Lib

/-- Contents of tenants by version, their generations, and a cache. -/
structure GenCache (T K D : Type) (V : K → Type) where
  version : T → Nat
  content : T → Nat → D
  gen : T → Nat
  /-- The version at which a generation began. -/
  began : T → Nat → Nat
  cache : (k : K) → Option (Nat × V k)

namespace GenCache

variable {T K D : Type} {V : K → Type}

/-- What a tenant holds now. -/
def current (s : GenCache T K D V) (t : T) : D := s.content t (s.version t)

section

variable [DecidableEq T]

/-- A new version. -/
def commit (s : GenCache T K D V) (t : T) (edit : D → D) : GenCache T K D V :=
  { s with
    version := Function.update s.version t (s.version t + 1)
    content := Function.update s.content t
      (Function.update (s.content t) (s.version t + 1) (edit (s.current t))) }

/-- A new generation. -/
def bump (s : GenCache T K D V) (t : T) : GenCache T K D V :=
  { s with
    gen := Function.update s.gen t (s.gen t + 1)
    began := Function.update s.began t
      (Function.update (s.began t) (s.gen t + 1) (s.version t)) }

@[simp] theorem commit_gen (s : GenCache T K D V) (t : T) (edit : D → D) :
    (s.commit t edit).gen = s.gen := rfl

end

section

variable [DecidableEq K]

/-- A new entry. -/
def insert (s : GenCache T K D V) (k : K) (g : Nat) (v : V k) : GenCache T K D V :=
  { s with cache := Function.update s.cache k (some (g, v)) }

@[simp] theorem insert_gen (s : GenCache T K D V) (k : K) (g : Nat) (v : V k) :
    (s.insert k g v).gen = s.gen := rfl

end

/-! ### What the operations keep -/

/-- A later state: what was, stays, and generations that began since began no earlier. -/
structure Later (s s' : GenCache T K D V) : Prop where
  gen_le : ∀ t, s.gen t ≤ s'.gen t
  version_le : ∀ t, s.version t ≤ s'.version t
  content_eq : ∀ t n, n ≤ s.version t → s'.content t n = s.content t n
  began_eq : ∀ t g, g ≤ s.gen t → s'.began t g = s.began t g
  began_ge : ∀ t g, s.gen t < g → g ≤ s'.gen t → s.version t ≤ s'.began t g

theorem Later.refl (s : GenCache T K D V) : Later s s where
  gen_le _ := le_rfl
  version_le _ := le_rfl
  content_eq _ _ _ := rfl
  began_eq _ _ _ := rfl
  began_ge t g hlt hle := absurd hlt (by omega)

theorem Later.trans {s s' s'' : GenCache T K D V} (h : Later s s') (h' : Later s' s'') :
    Later s s'' where
  gen_le t := (h.gen_le t).trans (h'.gen_le t)
  version_le t := (h.version_le t).trans (h'.version_le t)
  content_eq t n hn :=
    (h'.content_eq t n (hn.trans (h.version_le t))).trans (h.content_eq t n hn)
  began_eq t g hg := (h'.began_eq t g (hg.trans (h.gen_le t))).trans (h.began_eq t g hg)
  began_ge t g hlt hle := by
    by_cases hg : g ≤ s'.gen t
    · rw [h'.began_eq t g hg]
      exact h.began_ge t g hlt hg
    · exact (h.version_le t).trans (h'.began_ge t g (by omega) hle)

section

variable [DecidableEq T]

theorem later_commit (s : GenCache T K D V) (t : T) (edit : D → D) : Later s (s.commit t edit) where
  gen_le _ := le_rfl
  version_le u := by
    by_cases hu : u = t
    · subst hu
      simp [commit]
    · simp [commit, hu]
  content_eq u n hn := by
    by_cases hu : u = t
    · subst hu
      have hne : n ≠ s.version u + 1 := by omega
      simp [commit, hne]
    · simp [commit, hu]
  began_eq _ _ _ := rfl
  began_ge u g hlt hle := absurd hle (by simpa using hlt)

theorem later_bump (s : GenCache T K D V) (t : T) : Later s (s.bump t) where
  gen_le u := by
    by_cases hu : u = t
    · subst hu
      simp [bump]
    · simp [bump, hu]
  version_le _ := le_rfl
  content_eq _ _ _ := rfl
  began_eq u g hg := by
    by_cases hu : u = t
    · subst hu
      have hne : g ≠ s.gen u + 1 := by omega
      simp [bump, hne]
    · simp [bump, hu]
  began_ge u g hlt hle := by
    by_cases hu : u = t
    · subst hu
      have hg : g = s.gen u + 1 := by
        have : g ≤ s.gen u + 1 := by simpa [bump] using hle
        omega
      simp [bump, hg]
    · have : g ≤ s.gen u := by simpa [bump, hu] using hle
      omega

end

section

variable [DecidableEq K]

theorem later_insert (s : GenCache T K D V) (k : K) (g : Nat) (v : V k) :
    Later s (s.insert k g v) where
  gen_le _ := le_rfl
  version_le _ := le_rfl
  content_eq _ _ _ := rfl
  began_eq _ _ _ := rfl
  began_ge u g hlt hle := absurd hle (by simpa using hlt)

end

section

variable (home : K → T) (holds : D → (k : K) → V k → Prop)

/-- The value was loaded since the generation began. -/
structure Since (s : GenCache T K D V) (k : K) (g : Nat) (v : V k) : Prop where
  gen_le : g ≤ s.gen (home k)
  loaded : ∃ n, s.began (home k) g ≤ n ∧ n ≤ s.version (home k) ∧
    holds (s.content (home k) n) k v

/-- Generations began in the past, and every entry was loaded since its generation began. -/
structure Good (s : GenCache T K D V) : Prop where
  began_le : ∀ t g, g ≤ s.gen t → s.began t g ≤ s.version t
  cached : ∀ k g v, s.cache k = some (g, v) → Since home holds s k g v

variable {home holds} {s s' : GenCache T K D V}

theorem Since.mono {k : K} {g : Nat} {v : V k} (h : Since home holds s k g v) (hl : Later s s') :
    Since home holds s' k g v where
  gen_le := h.gen_le.trans (hl.gen_le _)
  loaded := by
    obtain ⟨n, hbegan, hn, hholds⟩ := h.loaded
    refine ⟨n, ?_, hn.trans (hl.version_le _), ?_⟩
    · rwa [hl.began_eq _ g h.gen_le]
    · rwa [hl.content_eq _ n hn]

/-- What is loaded now was loaded since any generation began. -/
theorem since_load (hgood : Good home holds s) {k : K} {g : Nat} {v : V k}
    (hg : g ≤ s.gen (home k)) (hholds : holds (s.current (home k)) k v) :
    Since home holds s k g v :=
  ⟨hg, s.version (home k), hgood.began_le _ g hg, le_rfl, hholds⟩

/-- What was loaded since a generation began is as new as every commit before that generation's
bump. -/
theorem Since.fresh [DecidableEq T] {c a : GenCache T K D V} {k : K} {g : Nat} {v : V k}
    (h : Since home holds s k g v) (hca : Later c a) (has : Later (a.bump (home k)) s)
    (hg : (a.bump (home k)).gen (home k) ≤ g) :
    ∃ n, c.version (home k) ≤ n ∧ n ≤ s.version (home k) ∧
      holds (s.content (home k) n) k v := by
  obtain ⟨n, hbegan, hn, hholds⟩ := h.loaded
  refine ⟨n, le_trans ?_ hbegan, hn, hholds⟩
  have hc := hca.version_le (home k)
  rcases hg.lt_or_eq with hlt | rfl
  · exact hc.trans (has.began_ge _ g hlt h.gen_le)
  · rw [has.began_eq _ _ le_rfl]
    simpa [bump] using hc

theorem Good.commit [DecidableEq T] (h : Good home holds s) (t : T) (edit : D → D) :
    Good home holds (s.commit t edit) where
  began_le u g hg := (h.began_le u g hg).trans ((later_commit s t edit).version_le u)
  cached k g v hv := (h.cached k g v hv).mono (later_commit s t edit)

theorem Good.bump [DecidableEq T] (h : Good home holds s) (t : T) : Good home holds (s.bump t) where
  began_le u g hg := by
    by_cases hle : g ≤ s.gen u
    · rw [(later_bump s t).began_eq u g hle]
      exact h.began_le u g hle
    · by_cases hu : u = t
      · subst hu
        have hg' : g = s.gen u + 1 := by
          have : g ≤ s.gen u + 1 := by simpa [GenCache.bump] using hg
          omega
        simp [GenCache.bump, hg']
      · exact absurd (by simpa [GenCache.bump, hu] using hg) hle
  cached k g v hv := (h.cached k g v hv).mono (later_bump s t)

theorem Good.insert [DecidableEq K] (h : Good home holds s) {k : K} {g : Nat} {v : V k}
    (hv : Since home holds s k g v) : Good home holds (s.insert k g v) where
  began_le := h.began_le
  cached k' g' v' hentry := by
    by_cases hk : k' = k
    · subst hk
      simp only [GenCache.insert, Function.update_self, Option.some.injEq, Prod.mk.injEq] at hentry
      obtain ⟨rfl, rfl⟩ := hentry
      exact hv.mono (later_insert s k' g v)
    · simp only [GenCache.insert, Function.update_of_ne hk] at hentry
      exact (h.cached k' g' v' hentry).mono (later_insert s k g v)

/-! ### What a reader has seen -/

/-- The generation that a reader sampled last, and the values it was given, each with a
generation since whose begin it was loaded. -/
structure Seen (T K : Type) (V : K → Type) where
  sampled : T → Option Nat
  got : (Σ k, Nat × V k) → Prop

/-- Nothing was seen yet. -/
def Seen.nothing : Seen T K V := ⟨fun _ => none, fun _ => False⟩

/-- A generation was sampled. -/
def Seen.sample [DecidableEq T] (seen : Seen T K V) (t : T) (g : Nat) : Seen T K V :=
  { seen with sampled := Function.update seen.sampled t (some g) }

/-- An entry was found. -/
def Seen.find (seen : Seen T K V) (k : K) (entry : Option (Nat × V k)) : Seen T K V :=
  { seen with got := fun x => seen.got x ∨ ∃ e, entry = some e ∧ x = ⟨k, e⟩ }

/-- A value of which `P` is true was loaded. -/
def Seen.keep (home : K → T) (seen : Seen T K V) (k : K) (P : V k → Prop) : Seen T K V :=
  { seen with
    got := fun x => seen.got x ∨
      ∃ g a, seen.sampled (home k) = some g ∧ P a ∧ x = ⟨k, g, a⟩ }

variable (home holds)

/-- What was seen is so. -/
structure Knows (s : GenCache T K D V) (seen : Seen T K V) : Prop where
  sampled : ∀ t g, seen.sampled t = some g → g ≤ s.gen t
  got : ∀ k g v, seen.got ⟨k, g, v⟩ → Since home holds s k g v

variable {home holds} {seen : Seen T K V}

theorem knows_nothing (s : GenCache T K D V) : Knows home holds s (Seen.nothing : Seen T K V) where
  sampled _ _ h := by cases h
  got _ _ _ h := h.elim

theorem Knows.mono (h : Knows home holds s seen) (hl : Later s s') : Knows home holds s' seen where
  sampled t g hs := (h.sampled t g hs).trans (hl.gen_le _)
  got k g v hv := (h.got k g v hv).mono hl

theorem Knows.sample [DecidableEq T] (h : Knows home holds s seen) (t : T) :
    Knows home holds s (seen.sample t (s.gen t)) where
  sampled t' g' hs := by
    by_cases ht : t' = t
    · subst ht
      have hg : s.gen t' = g' := by simpa [Seen.sample] using hs
      exact hg.ge
    · exact h.sampled t' g' (by simpa [Seen.sample, ht] using hs)
  got := h.got

theorem Knows.find (h : Knows home holds s seen) (hgood : Good home holds s) (k : K) :
    Knows home holds s (seen.find k (s.cache k)) where
  sampled := h.sampled
  got k' g' v' hv := by
    rcases hv with hv | ⟨e, hentry, hx⟩
    · exact h.got k' g' v' hv
    · cases hx
      exact hgood.cached _ _ _ hentry

theorem Knows.keep (h : Knows home holds s seen) (hgood : Good home holds s) (k : K)
    {P : V k → Prop} (hP : ∀ a, P a → holds (s.current (home k)) k a) :
    Knows home holds s (seen.keep home k P) where
  sampled := h.sampled
  got k' g' v' hx := by
    rcases hx with hx | ⟨g, a, hg, ha, hx⟩
    · exact h.got k' g' v' hx
    · cases hx
      exact since_load hgood (h.sampled _ _ hg) (hP _ ha)

end

/-! ### Other tenants -/

/-- A bump leaves what other tenants hold, their generations and every entry. -/
theorem bump_of_ne [DecidableEq T] (s : GenCache T K D V) {t u : T} (hu : u ≠ t) :
    (s.bump t).gen u = s.gen u ∧ (s.bump t).current u = s.current u ∧
      (s.bump t).cache = s.cache := by
  refine ⟨?_, rfl, rfl⟩
  simp [bump, hu]

/-! ### Programs side by side -/

section

variable {ε Q α ι : Type} {R : Q → Type} (home : K → T) (holds : D → (k : K) → V k → Prop)
  (env : Env Q R (GenCache T K D V) (Seen T K V)) (ok : ι → Seen T K V → Q → Prop)

/-- Programs over a cache. -/
abbrev System (ε Q α T K D ι : Type) (R : Q → Type) (V : K → Type) :=
  Pool ε Q R α (GenCache T K D V) (Seen T K V) ι

/-- Answers to what may be asked keep the cache good and teach what is so, and what a program
samples is the generation. -/
structure Protocol : Prop where
  keeps : ∀ {s s' q r seen i}, env.answers s q r s' → ok i seen q → Good home holds s →
    Knows home holds s seen →
    Later s s' ∧ Good home holds s' ∧ Knows home holds s' (env.learn s seen q r)
  samples : ∀ {s s' q r seen t g}, env.answers s q r s' →
    (env.learn s seen q r).sampled t = some g → seen.sampled t = some g ∨ g = s.gen t

/-- The cache is good, what the programs have seen is so, and they ask only what they may. -/
structure Sound (post : ι → Seen T K V → Except ε α → Prop) (p : System ε Q α T K D ι R V) :
    Prop where
  good : Good home holds p.shared
  knows : ∀ i, Knows home holds p.shared (p.known i)
  safe : ∀ i, Pool.Safe env (fun _ _ _ => True) (ok i) (post i) (p.known i) (p.prog i)

variable {home holds env ok} {post : ι → Seen T K V → Except ε α → Prop}
  [DecidableEq ι] {p p' : System ε Q α T K D ι R V}

theorem Sound.turn (h : Sound home holds env ok post p) (hprot : Protocol home holds env ok)
    {t : Turn Q R ι} (hstep : Pool.Step env p t p') :
    Later p.shared p'.shared ∧ Sound home holds env ok post p' := by
  obtain ⟨hlater, hgood, hknows⟩ := hprot.keeps hstep.answers ((h.safe t.thread).asks hstep)
    h.good (h.knows t.thread)
  refine ⟨hlater, hgood, fun i => ?_, fun i => (h.safe i).step hstep trivial⟩
  by_cases hi : i = t.thread
  · subst hi
    rw [hstep.known_self]
    exact hknows
  · rw [hstep.known_ne hi]
    exact (h.knows i).mono hlater

theorem Sound.moves (h : Sound home holds env ok post p) (hprot : Protocol home holds env ok)
    (hpost : ∀ i seen e, post i seen (.error e)) {e : Pool.Event Q R ι}
    (hmove : Pool.Moves env p e p') :
    Later p.shared p'.shared ∧ Sound home holds env ok post p' := by
  cases e with
  | turn t => exact h.turn hprot hmove
  | crash i =>
      have hsafe : ∀ j, Pool.Safe env (fun _ _ _ => True) (ok j) (post j) (p'.known j)
          (p'.prog j) := by
        intro j
        by_cases hj : j = i
        · subst hj
          exact Pool.Safe.crash hmove (fun e => hpost j _ e) (h.safe j)
        · obtain ⟨_, hknown, e, hprog⟩ := hmove
          rw [hknown, hprog, Function.update_of_ne hj]
          exact h.safe j
      obtain ⟨hshared, hknown, _⟩ := hmove
      refine ⟨hshared ▸ .refl p.shared, hshared ▸ h.good, fun j => ?_, hsafe⟩
      rw [hshared, hknown]
      exact h.knows j

theorem Sound.run (h : Sound home holds env ok post p) (hprot : Protocol home holds env ok)
    (hpost : ∀ i seen e, post i seen (.error e)) {es : List (Pool.Event Q R ι)}
    (hrun : Run (Pool.Moves env) p es p') :
    Later p.shared p'.shared ∧ Sound home holds env ok post p' :=
  hrun.invariant (I := fun q => Later p.shared q.shared ∧ Sound home holds env ok post q)
    ⟨.refl p.shared, h⟩ fun _ _ _ ha hab =>
      ⟨ha.1.trans (ha.2.moves hprot hpost hab).1, (ha.2.moves hprot hpost hab).2⟩

/-- Once a program sampled a generation, what it samples stays at least that. -/
theorem sampled_run (h : Sound home holds env ok post p) (hprot : Protocol home holds env ok)
    (hpost : ∀ i seen e, post i seen (.error e)) {es : List (Pool.Event Q R ι)}
    (hrun : Run (Pool.Moves env) p es p') {i : ι} {t : T} {g₀ : Nat} (hg₀ : g₀ ≤ p.shared.gen t)
    (hsampled : ∀ g, (p.known i).sampled t = some g → g₀ ≤ g) :
    ∀ g, (p'.known i).sampled t = some g → g₀ ≤ g := by
  suffices g₀ ≤ p'.shared.gen t ∧ Sound home holds env ok post p' ∧
      ∀ g, (p'.known i).sampled t = some g → g₀ ≤ g from this.2.2
  refine hrun.invariant (I := fun q => g₀ ≤ q.shared.gen t ∧ Sound home holds env ok post q ∧
    ∀ g, (q.known i).sampled t = some g → g₀ ≤ g) ⟨hg₀, h, hsampled⟩ ?_
  rintro a e b ⟨hgen, hsound, hold⟩ hmove
  obtain ⟨hlater, hsound'⟩ := hsound.moves hprot hpost hmove
  refine ⟨hgen.trans (hlater.gen_le t), hsound', ?_⟩
  cases e with
  | crash j =>
      rw [hmove.2.1]
      exact hold
  | turn u =>
      intro g hg
      rcases Pool.Step.known hmove i with hknown | ⟨rfl, hknown⟩
      · rw [hknown] at hg
        exact hold g hg
      · rw [hknown] at hg
        rcases hprot.samples (Pool.Step.answers hmove) hg with hsame | rfl
        · exact hold g hsame
        · exact hgen

/-- In a run from `c` to `p` whose steps satisfy `cond`, the tenant's generation was bumped, and
after that the program sampled it. -/
def BumpedThenSampled [DecidableEq T] (env : Env Q R (GenCache T K D V) (Seen T K V))
    (cond : System ε Q α T K D ι R V → Pool.Event Q R ι → System ε Q α T K D ι R V → Prop) (i : ι)
    (t : T) (c p : System ε Q α T K D ι R V) : Prop :=
  ∃ es₂ es₃ es₄ b u b' r w r', Run.Steps (Pool.Moves env) c cond es₂ b ∧
    Pool.Step env b u b' ∧ cond b (.turn u) b' ∧ b'.shared = b.shared.bump t ∧
    Run.Steps (Pool.Moves env) b' cond es₃ r ∧
    Pool.Step env r w r' ∧ cond r (.turn w) r' ∧ w.thread = i ∧
    (r'.known i).sampled t = some (r.shared.gen t) ∧
    Run.Steps (Pool.Moves env) r' cond es₄ p

theorem BumpedThenSampled.run [DecidableEq T] {c : System ε Q α T K D ι R V}
    {cond : System ε Q α T K D ι R V → Pool.Event Q R ι → System ε Q α T K D ι R V → Prop} {i : ι}
    {t : T} (h : BumpedThenSampled env cond i t c p) :
    ∃ es, Run.Steps (Pool.Moves env) c cond es p := by
  obtain ⟨es₂, es₃, es₄, b, u, b', r, w, r', hrun₂, hbump, hb, _, hrun₃, hsample, hr, _, _,
    hrun₄⟩ := h
  have hto : Run.Steps (Pool.Moves env) c cond (es₂ ++ [.turn u]) b' := hrun₂.snoc ⟨hbump, hb⟩
  have hon : Run.Steps (Pool.Moves env) b' cond (es₃ ++ [.turn w]) r' := hrun₃.snoc ⟨hsample, hr⟩
  exact ⟨_, (hto.append hon).append hrun₄⟩

/-- A program that samples after a bump is given what is as new as the commits before. -/
theorem Sound.fresh [DecidableEq T] {c : System ε Q α T K D ι R V}
    {cond : System ε Q α T K D ι R V → Pool.Event Q R ι → System ε Q α T K D ι R V → Prop}
    (hc : Sound home holds env ok post c) (hprot : Protocol home holds env ok)
    (hpost : ∀ i seen e, post i seen (.error e)) {i : ι} {k : K} {g : Nat} {v : V k}
    (hafter : BumpedThenSampled env cond i (home k) c p)
    (hg : (p.known i).sampled (home k) = some g) (hgot : (p.known i).got ⟨k, g, v⟩) :
    ∃ n, c.shared.version (home k) ≤ n ∧ n ≤ p.shared.version (home k) ∧
      holds (p.shared.content (home k) n) k v := by
  obtain ⟨es₂, es₃, es₄, b, u, b', r, w, r', hrun₂, hbump, _, hbumped, hrun₃, hsample, _, rfl,
    hnow, hrun₄⟩ := hafter
  obtain ⟨hcb, hb⟩ := hc.run hprot hpost hrun₂.run
  have hb' := (hb.turn hprot hbump).2
  obtain ⟨hb'r, hr⟩ := hb'.run hprot hpost hrun₃.run
  obtain ⟨hrr', hr'⟩ := hr.turn hprot hsample
  obtain ⟨hr'p, hp⟩ := hr'.run hprot hpost hrun₄.run
  -- what it samples is at least the generation of the bump, now and later
  have hgen : b'.shared.gen (home k) ≤ r.shared.gen (home k) := hb'r.gen_le _
  have hlast := sampled_run hr' hprot hpost hrun₄.run (hgen.trans (hrr'.gen_le _))
    (fun g' hg' => by
      rw [hnow] at hg'
      rw [← Option.some.inj hg']
      exact hgen)
  have hsince := (hp.knows w.thread).got k g v hgot
  rw [hbumped] at hb'r hlast
  exact hsince.fresh hcb (hb'r.trans (hrr'.trans hr'p)) (hlast g hg)

end

end GenCache

end Frust.Lib
