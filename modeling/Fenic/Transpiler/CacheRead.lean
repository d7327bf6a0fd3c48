import Fenic.Transpiler.PlanConverter

/-!
# `Transpiler.CacheRead` — which cache reads find their frame

The converter turns the second occurrence of a persisted sub-plan into a read, trusting the first occurrence
to write the frame. A persisted *source* breaks that trust: its operator is built without cache information,
so it never writes.

## Contents
- **Sub-plans and keys.** `Subplan`, `keptKey`, and `KeysIdentify`: a cache key names one sub-plan.
- **Arrivals.** `arrivals` lists the persisted nodes the converter comes to, once per visit.
- **The two traversals in step.** `Tracked` is the invariant that links the converter's key set to the
  store of the running plan; `convertToPhysicalPlan_tracked` carries it over a whole plan.
- **The main result.** `reads_available_iff`: every read is available exactly when the converter comes to
  each unwritten persisted source at most once.
-/

namespace Fenic

variable {A : Type}

namespace LogicalPlan

/-! ## Sub-plans and their keys -/

/-- `q` occurs in `p`. -/
inductive Subplan : LogicalPlan A → LogicalPlan A → Prop where
  | refl (p : LogicalPlan A) : Subplan p p
  | child {q c p : LogicalPlan A} (hc : c ∈ p.children) (h : Subplan q c) : Subplan q p

variable {p : LogicalPlan A}

theorem Subplan.trans {q r : LogicalPlan A} (h : Subplan p q) (h' : Subplan q r) : Subplan p r := by
  induction h' with
  | refl => exact h
  | child hc _ ih => exact Subplan.child hc ih

theorem sizeOf_lt_of_mem_children {c : LogicalPlan A} (h : c ∈ p.children) : sizeOf c < sizeOf p := by
  cases p with
  | filter input e s cache =>
    rw [children, List.mem_singleton] at h
    subst h
    simp +arith
  | node op ps s cache =>
    have hlt : sizeOf c < sizeOf ps := List.sizeOf_lt_of_mem h
    simp only [node.sizeOf_spec]
    omega

theorem Subplan.sizeOf_le {q : LogicalPlan A} (h : Subplan p q) : sizeOf p ≤ sizeOf q := by
  induction h with
  | refl => exact Nat.le_refl _
  | child hc _ ih => exact Nat.le_trans ih (Nat.le_of_lt (sizeOf_lt_of_mem_children hc))

/-- The cache information that survives rebuilding the node. -/
def keptCacheInfo : LogicalPlan A → Option CacheInfo
  | .filter _ _ _ cache => cache
  | .node op _ _ cache => if op.keepsCacheInfo then cache else none

/-- Its key. -/
def keptKey (p : LogicalPlan A) : Option CacheKey := p.keptCacheInfo.map CacheInfo.cacheKey

/-- A cache key names one sub-plan: persisting a frame makes a fresh key, and every later use of the frame
    shares its plan. -/
def KeysIdentify (p : LogicalPlan A) : Prop :=
  ∀ (q q' : LogicalPlan A) (key : CacheKey), Subplan q p → Subplan q' p →
    q.keptKey = some key → q'.keptKey = some key → q = q'

/-- No class that forgets its cache key has one, as in every plan the optimizer returns. -/
def CacheKept (p : LogicalPlan A) : Prop :=
  ∀ q : LogicalPlan A, Subplan q p → q.cacheInfo = q.keptCacheInfo

end LogicalPlan

namespace PlanConverter

open LogicalPlan StoreTrace

/-! ## Arrivals -/

/-- Arriving at a node: an unpersisted one is looked through; a persisted one is recorded, and looked into
    when its key is neither known nor stored. -/
def arrive (store cacheKeys : List CacheKey) (cache : Option CacheInfo) (source : Bool)
    (inside : List CacheKey → List (CacheKey × Bool) × List CacheKey) :
    List (CacheKey × Bool) × List CacheKey :=
  match lookup store cacheKeys cache with
  | .inl key => ([(key, source)], cacheKeys)
  | .inr keys =>
    match cache with
    | none => inside keys
    | some info => ((info.cacheKey, source) :: (inside keys).1, (inside keys).2)

mutual

/-- The persisted nodes the converter comes to, each with whether it is a source, and the keys it then
    knows. -/
def arrivals (store : List CacheKey) :
    List CacheKey → LogicalPlan A → List (CacheKey × Bool) × List CacheKey
  | cacheKeys, .filter input e s cache =>
    arrive store cacheKeys (LogicalPlan.filter input e s cache).keptCacheInfo false
      (fun keys => arrivals store keys input)
  | cacheKeys, .node op children s cache =>
    arrive store cacheKeys (LogicalPlan.node op children s cache).keptCacheInfo op.isSource
      (fun keys => arrivalsChildren store keys children)

def arrivalsChildren (store : List CacheKey) :
    List CacheKey → List (LogicalPlan A) → List (CacheKey × Bool) × List CacheKey
  | cacheKeys, [] => ([], cacheKeys)
  | cacheKeys, p :: ps =>
    let first := arrivals store cacheKeys p
    let rest := arrivalsChildren store first.2 ps
    (first.1 ++ rest.1, rest.2)

end

/-- Both node forms are arrived at alike. -/
theorem arrivals_eq (store cacheKeys : List CacheKey) (p : LogicalPlan A) :
    arrivals store cacheKeys p =
      arrive store cacheKeys p.keptCacheInfo p.isSource (fun keys => arrivalsChildren store keys p.children) := by
  cases p with
  | filter input e s cache =>
    have hone : ∀ keys, arrivalsChildren store keys [input] = arrivals store keys input := by
      intro keys
      simp [arrivalsChildren]
    simp only [arrivals, isSource, children, hone]
  | node op ps s cache => rfl

/-! ## One step of the conversion -/

variable {store keys : List CacheKey} {cache : Option CacheInfo} {key : CacheKey}

theorem lookup_inl
    (h : lookup store keys cache = .inl key) :
    cache.map CacheInfo.cacheKey = some key ∧ (key ∈ keys ∨ key ∈ store) := by
  cases cache with
  | none => cases h
  | some info =>
    by_cases hmem : info.cacheKey ∈ keys ∨ info.cacheKey ∈ store
    · rw [lookup, if_pos hmem] at h
      cases h
      exact ⟨rfl, hmem⟩
    · rw [lookup, if_neg hmem] at h
      cases h

variable {keys' : List CacheKey}

theorem lookup_inr
    (h : lookup store keys cache = .inr keys') :
    (cache = none ∧ keys' = keys) ∨
      ∃ info, cache = some info ∧ keys' = info.cacheKey :: keys ∧ info.cacheKey ∉ keys ∧
        info.cacheKey ∉ store := by
  cases cache with
  | none =>
    cases h
    exact Or.inl ⟨rfl, rfl⟩
  | some info =>
    by_cases hmem : info.cacheKey ∈ keys ∨ info.cacheKey ∈ store
    · rw [lookup, if_pos hmem] at h
      cases h
    · rw [lookup, if_neg hmem] at h
      cases h
      obtain ⟨hkeys, hstore⟩ := not_or.mp hmem
      exact Or.inr ⟨info, rfl, rfl, hkeys, hstore⟩

/-- The key set only grows. -/
theorem lookup_subset
    (h : lookup store keys cache = .inr keys') : keys ⊆ keys' := by
  rcases lookup_inr h with ⟨-, rfl⟩ | ⟨info, -, rfl, -, -⟩
  · exact List.Subset.refl _
  · exact List.subset_cons_self _ _

variable {ps : List (LogicalPlan A)}

theorem convertChildren_subset
    (h : ∀ p ∈ ps, ∀ keys, keys ⊆ (convertToPhysicalPlan store keys p).2) (keys : List CacheKey) :
    keys ⊆ (convertChildren store keys ps).2 := by
  induction ps generalizing keys with
  | nil => exact List.Subset.refl _
  | cons p ps ih =>
    have hp : keys ⊆ (convertToPhysicalPlan store keys p).2 := h p (by simp) keys
    exact List.Subset.trans hp (ih (fun q hq => h q (by simp [hq])) _)

theorem convertToPhysicalPlan_subset (store : List CacheKey) (p : LogicalPlan A) :
    ∀ keys, keys ⊆ (convertToPhysicalPlan store keys p).2 := by
  induction p using induction_on_children with
  | h p ih =>
    intro keys
    rw [convertToPhysicalPlan_eq]
    cases hl : lookup store keys p.cacheInfo with
    | inl key => exact List.Subset.refl _
    | inr keys' => exact List.Subset.trans (lookup_subset hl) (convertChildren_subset ih keys')

/-! ## Counting reads

On a plan without dropped keys the arrivals see the converter's own key set, and every arrival is either the
first one of its key or a read. -/

variable {p c : LogicalPlan A}

theorem CacheKept.of_mem (h : CacheKept p) (hc : c ∈ p.children) : CacheKept c :=
  fun q hq => h q (Subplan.child hc hq)

theorem arrivalsChildren_keys (store : List CacheKey)
    (h : ∀ p ∈ ps, ∀ keys, (arrivals store keys p).2 = (convertToPhysicalPlan store keys p).2)
    (keys : List CacheKey) :
    (arrivalsChildren store keys ps).2 = (convertChildren store keys ps).2 := by
  induction ps generalizing keys with
  | nil => rfl
  | cons p ps ih =>
    simp only [arrivalsChildren, convertChildren]
    rw [h p (by simp), ih (fun q hq => h q (by simp [hq]))]

theorem arrivals_keys (store : List CacheKey) (p : LogicalPlan A) (hkept : CacheKept p) :
    ∀ keys, (arrivals store keys p).2 = (convertToPhysicalPlan store keys p).2 := by
  induction p using induction_on_children with
  | h p ih =>
    intro keys
    have hchildren := arrivalsChildren_keys store (fun c hc => ih c hc (CacheKept.of_mem hkept hc))
    rw [arrivals_eq, convertToPhysicalPlan_eq, ← hkept p (Subplan.refl p)]
    cases hl : lookup store keys p.cacheInfo with
    | inl key => simp only [arrive, hl]
    | inr keys' =>
      simp only [arrive, hl]
      cases p.cacheInfo with
      | none => exact hchildren keys'
      | some info => exact hchildren keys'

/-- One if the key was learnt between the two key sets, else zero. -/
def learnt (key : CacheKey) (keys keys' : List CacheKey) : Nat :=
  if key ∈ keys' ∧ key ∉ keys then 1 else 0

theorem learnt_self (key : CacheKey) (keys : List CacheKey) : learnt key keys keys = 0 := by
  simp [learnt]

/-- Learning splits over an intermediate key set. -/
theorem learnt_add {keys'' : List CacheKey} (h : keys ⊆ keys')
    (h' : keys' ⊆ keys'') : learnt key keys keys' + learnt key keys' keys'' = learnt key keys keys'' := by
  unfold learnt
  by_cases hk : key ∈ keys
  · have hk' : key ∈ keys' := h hk
    simp [hk, hk']
  · by_cases hk' : key ∈ keys'
    · have hk'' : key ∈ keys'' := h' hk'
      simp [hk, hk', hk'']
    · simp [hk, hk']

/-- An operator reads what its children read. -/
theorem count_read_exec (S : List CacheKey) (op : PhysicalOp A) (phys : List (PhysicalPlan A))
    (cache : Option CacheInfo) (key : CacheKey) :
    ((PhysicalPlan.exec op phys cache).execute S).count (.read key)
      = (PhysicalPlan.executeChildren S phys).count (.read key) := by
  cases cache with
  | none => rfl
  | some info =>
    simp only [PhysicalPlan.execute]
    split
    · rfl
    · simp [List.count_append]

/-- A new key at the head of the key set is the only one learnt. -/
theorem learnt_cons {k : CacheKey} (h : k ∉ keys) :
    learnt key keys (k :: keys) = if k = key then 1 else 0 := by
  unfold learnt
  by_cases hk : k = key
  · subst hk
    simp [h]
  · have hk' : key ≠ k := fun heq => hk heq.symm
    by_cases hmem : key ∈ keys
    · simp [hk, hmem]
    · simp [hk, hk', hmem]

/-- The arrivals at a key are the reads of it, and its first occurrence. -/
def CountsReads (store : List CacheKey) (key : CacheKey) (p : LogicalPlan A) : Prop :=
  ∀ keys S, ((arrivals store keys p).1.map Prod.fst).count key
    = ((convertToPhysicalPlan store keys p).1.execute S).count (.read key)
      + learnt key keys (convertToPhysicalPlan store keys p).2

theorem count_arrivalsChildren
    (hkept : ∀ p ∈ ps, CacheKept p) (h : ∀ p ∈ ps, CountsReads store key p) (keys S : List CacheKey) :
    ((arrivalsChildren store keys ps).1.map Prod.fst).count key
      = (PhysicalPlan.executeChildren S (convertChildren store keys ps).1).count (.read key)
        + learnt key keys (convertChildren store keys ps).2 := by
  induction ps generalizing keys S with
  | nil => simp [arrivalsChildren, convertChildren, PhysicalPlan.executeChildren, learnt_self]
  | cons p ps ih =>
    have hp := h p (by simp) keys S
    have hps := ih (fun q hq => hkept q (by simp [hq])) (fun q hq => h q (by simp [hq]))
      (convertToPhysicalPlan store keys p).2
      (storeAfter S ((convertToPhysicalPlan store keys p).1.execute S))
    have hsplit : learnt key keys (convertToPhysicalPlan store keys p).2
          + learnt key (convertToPhysicalPlan store keys p).2
              (convertChildren store (convertToPhysicalPlan store keys p).2 ps).2
        = learnt key keys (convertChildren store (convertToPhysicalPlan store keys p).2 ps).2 :=
      learnt_add (convertToPhysicalPlan_subset store p keys)
        (convertChildren_subset (fun q _ => convertToPhysicalPlan_subset store q) _)
    simp only [arrivalsChildren, convertChildren, PhysicalPlan.executeChildren, List.map_append,
      List.count_append]
    rw [arrivals_keys store p (hkept p (by simp)), hp, hps, ← hsplit]
    omega

/-- **Every arrival at a key is a read of it or its first occurrence.** -/
theorem count_arrivals (store : List CacheKey) (key : CacheKey) (p : LogicalPlan A) (hkept : CacheKept p) :
    CountsReads store key p := by
  induction p using induction_on_children with
  | h p ih =>
    intro keys S
    have hchildren := count_arrivalsChildren (fun c hc => CacheKept.of_mem hkept hc)
      (fun c hc => ih c hc (CacheKept.of_mem hkept hc))
    rw [arrivals_eq, convertToPhysicalPlan_eq, ← hkept p (Subplan.refl p)]
    cases hl : lookup store keys p.cacheInfo with
    | inl k =>
      simp only [arrive, hl, PhysicalPlan.execute, learnt_self, List.map_cons, List.map_nil]
      by_cases hk : k = key <;> simp [hk]
    | inr keys' =>
      simp only [arrive, hl, count_read_exec]
      rcases lookup_inr hl with ⟨hnone, rfl⟩ | ⟨info, hsome, rfl, hnew, -⟩
      · rw [hnone]
        exact hchildren keys' S
      · have hsplit : learnt key keys (info.cacheKey :: keys)
              + learnt key (info.cacheKey :: keys) (convertChildren store (info.cacheKey :: keys) p.children).2
            = learnt key keys (convertChildren store (info.cacheKey :: keys) p.children).2 :=
          learnt_add (List.subset_cons_self info.cacheKey keys)
            (convertChildren_subset (fun q _ => convertToPhysicalPlan_subset store q) _)
        rw [hsome]
        simp only [List.map_cons, List.count_cons, hchildren (info.cacheKey :: keys) S]
        rw [← hsplit, learnt_cons hnew]
        by_cases hk : info.cacheKey = key
        · simp only [hk, beq_self_eq_true, if_true]
          omega
        · simp only [beq_iff_eq, hk, if_false]
          omega

/-- A read is of a stored key or of one the converter knows at the end. -/
theorem read_known (p : LogicalPlan A) :
    ∀ S keys, .read key ∈ (convertToPhysicalPlan store keys p).1.execute S →
      key ∈ store ∨ key ∈ (convertToPhysicalPlan store keys p).2 := by
  induction p using induction_on_children with
  | h p ih =>
    have hchildren : ∀ (ps : List (LogicalPlan A)), (∀ c ∈ ps, c ∈ p.children) → ∀ S keys,
        .read key ∈ PhysicalPlan.executeChildren S (convertChildren store keys ps).1 →
          key ∈ store ∨ key ∈ (convertChildren store keys ps).2 := by
      intro ps
      induction ps with
      | nil =>
        intro _ S keys hread
        cases hread
      | cons c ps ihps =>
        intro hsub S keys hread
        simp only [convertChildren, PhysicalPlan.executeChildren] at hread ⊢
        rcases List.mem_append.mp hread with hread | hread
        · refine (ih c (hsub c (by simp)) S keys hread).imp_right (fun hk => ?_)
          exact convertChildren_subset (fun q _ => convertToPhysicalPlan_subset store q) _ hk
        · exact ihps (fun q hq => hsub q (by simp [hq])) _ _ hread
    intro S keys hread
    rw [convertToPhysicalPlan_eq] at hread ⊢
    cases hl : lookup store keys p.cacheInfo with
    | inl k =>
      simp only [hl, PhysicalPlan.execute, List.mem_singleton, Event.read.injEq] at hread ⊢
      rw [hread]
      exact (lookup_inl hl).2.symm
    | inr keys' =>
      simp only [hl] at hread ⊢
      refine hchildren p.children (fun _ hc => hc) S keys' ?_
      rwa [← List.count_pos_iff, count_read_exec, List.count_pos_iff] at hread

/-! ## The two traversals in step -/

theorem execCacheInfo_eq (p : LogicalPlan A) :
    p.execCacheInfo = if p.isSource then none else p.cacheInfo := by
  cases p <;> rfl

/-- A key under which only a source was persisted: no operator ever writes it. -/
def SourceKey (root : LogicalPlan A) (key : CacheKey) : Prop :=
  ∃ q, Subplan q root ∧ q.isSource = true ∧ q.keptKey = some key

/-- What one conversion and the execution of its result owe to the rest of the run: reads find their key
    unless it is an unwritten source key; the keys learnt are stored unless they are source keys; and no
    source key is written. -/
structure Tracked (root : LogicalPlan A) (store S keys keys' : List CacheKey) (events : List StoreEvent) :
    Prop where
  guarded : Guarded (fun key => SourceKey root key ∧ key ∉ store) S events
  stored : ∀ key ∈ keys', key ∉ keys → key ∈ storeAfter S events ∨ SourceKey root key
  unwritten : ∀ key, .write key ∈ events → ¬ SourceKey root key

/-- What they may rely on: the store still holds what it held at the start, and the known keys that occur in
    the plan are stored unless they are source keys. A key of an operator that is still running is known and
    not stored, but does not occur below that operator. -/
structure Ready (root : LogicalPlan A) (store S keys : List CacheKey) (p : LogicalPlan A) : Prop where
  initial : ∀ key ∈ store, key ∈ S
  known : ∀ key ∈ keys, (∃ q, Subplan q p ∧ q.keptKey = some key) → key ∈ S ∨ SourceKey root key

variable {root : LogicalPlan A} {S : List CacheKey}

theorem Tracked.nil :
    Tracked root store S keys keys [] :=
  ⟨trivial, fun _ hk hnk => absurd hk hnk, fun _ h => by cases h⟩

variable {es : List StoreEvent}

/-- Two conversions in a row. -/
theorem Tracked.append {keys'' : List CacheKey}
    {fs : List StoreEvent} (h : Tracked root store S keys keys' es)
    (h' : Tracked root store (storeAfter S es) keys' keys'' fs) :
    Tracked root store S keys keys'' (es ++ fs) where
  guarded := guarded_append.mpr ⟨h.guarded, h'.guarded⟩
  stored := by
    intro key hkey hnew
    rw [storeAfter_append]
    by_cases hk' : key ∈ keys'
    · rcases h.stored key hk' hnew with hmem | hsrc
      · exact Or.inl (mem_storeAfter.mpr (Or.inl hmem))
      · exact Or.inr hsrc
    · exact h'.stored key hkey hk'
  unwritten := by
    intro key hw
    rcases List.mem_append.mp hw with hw | hw
    · exact h.unwritten key hw
    · exact h'.unwritten key hw

/-- Later conversions may rely on earlier ones. -/
theorem Ready.later {q : LogicalPlan A}
    (h : Tracked root store S keys keys' es) (hp : Ready root store S keys p)
    (hq : Ready root store S keys q) : Ready root store (storeAfter S es) keys' q where
  initial := fun key hkey => mem_storeAfter.mpr (Or.inl (hp.initial key hkey))
  known := by
    intro key hkey hocc
    by_cases hk : key ∈ keys
    · rcases hq.known key hk hocc with hmem | hsrc
      · exact Or.inl (mem_storeAfter.mpr (Or.inl hmem))
      · exact Or.inr hsrc
    · exact h.stored key hkey hk

/-- The invariant over a list of children. -/
theorem convertChildren_tracked
    (h : ∀ p ∈ ps, ∀ S keys, Ready root store S keys p →
      Tracked root store S keys (convertToPhysicalPlan store keys p).2
        ((convertToPhysicalPlan store keys p).1.execute S))
    (S keys : List CacheKey) (hready : ∀ p ∈ ps, Ready root store S keys p) :
    Tracked root store S keys (convertChildren store keys ps).2
      (PhysicalPlan.executeChildren S (convertChildren store keys ps).1) := by
  induction ps generalizing S keys with
  | nil => exact Tracked.nil
  | cons p ps ih =>
    have hp : Ready root store S keys p := hready p (by simp)
    have htracked := h p (by simp) S keys hp
    have hps := ih (fun q hq => h q (by simp [hq])) _ _
      (fun q hq => Ready.later htracked hp (hready q (by simp [hq])))
    exact htracked.append hps

/-- A read of a known key. -/
theorem tracked_read
    (hready : Ready root store S keys p) (hkey : p.keptKey = some key) (hmem : key ∈ keys ∨ key ∈ store) :
    Tracked root store S keys keys [.read key] := by
  have hguard : key ∈ S ∨ (SourceKey root key ∧ key ∉ store) := by
    by_cases hs : key ∈ store
    · exact Or.inl (hready.initial key hs)
    · have hk : key ∈ keys := hmem.resolve_right hs
      rcases hready.known key hk ⟨p, Subplan.refl p, hkey⟩ with hS | hsrc
      · exact Or.inl hS
      · exact Or.inr ⟨hsrc, hs⟩
  exact ⟨⟨hguard, trivial⟩, fun _ hk hnk => absurd hk hnk, fun _ h => by simp at h⟩

/-- No key occurs both at a node and below it. -/
theorem keptKey_ne_of_below {q : LogicalPlan A} (hid : KeysIdentify root)
    (hp : Subplan p root) (hkey : p.keptKey = some key) (hc : c ∈ p.children) (hq : Subplan q c) :
    q.keptKey ≠ some key := by
  intro hqk
  have hqp : Subplan q p := Subplan.child hc hq
  have heq : q = p := hid q p key (hqp.trans hp) hp hqk hkey
  have hlt : sizeOf q < sizeOf p := Nat.lt_of_le_of_lt hq.sizeOf_le (sizeOf_lt_of_mem_children hc)
  rw [heq] at hlt
  exact Nat.lt_irrefl _ hlt

/-- A key at an operator that is no source is no source key. -/
theorem not_sourceKey (hid : KeysIdentify root)
    (hp : Subplan p root) (hkey : p.keptKey = some key) (hsrc : p.isSource = false) :
    ¬ SourceKey root key := by
  rintro ⟨q, hq, hqs, hqk⟩
  rw [hid q p key hq hp hqk hkey, hsrc] at hqs
  cases hqs

/-- Below an unpersisted node the known keys are the same. -/
theorem Ready.below
    (h : Ready root store S keys p) (hc : c ∈ p.children) : Ready root store S keys c where
  initial := h.initial
  known := by
    rintro key hkey ⟨q, hq, hqk⟩
    exact h.known key hkey ⟨q, Subplan.child hc hq, hqk⟩

/-- Below a persisted node its own key is known too, and does not occur. -/
theorem Ready.inside
    (hid : KeysIdentify root) (hp : Subplan p root) (hkey : p.keptKey = some key)
    (h : Ready root store S keys p) (hc : c ∈ p.children) : Ready root store S (key :: keys) c where
  initial := h.initial
  known := by
    rintro k hk ⟨q, hq, hqk⟩
    rcases List.mem_cons.mp hk with rfl | hk
    · exact absurd hqk (keptKey_ne_of_below hid hp hkey hc hq)
    · exact h.known k hk ⟨q, Subplan.child hc hq, hqk⟩

/-- Leaving a persisted node: its key is stored by now, or is a source key. -/
theorem Tracked.leave
    (h : Tracked root store S (key :: keys) keys' es)
    (hkey : key ∈ storeAfter S es ∨ SourceKey root key) : Tracked root store S keys keys' es where
  guarded := h.guarded
  unwritten := h.unwritten
  stored := by
    intro k hk hnew
    by_cases heq : k = key
    · rw [heq]
      exact hkey
    · exact h.stored k hk (by simp [heq, hnew])

/-- The write at the end of a persisted operator. -/
theorem Tracked.write
    (h : Tracked root store S (key :: keys) keys' es) (hkey : ¬ SourceKey root key) :
    Tracked root store S keys keys'
      (if key ∈ storeAfter S es then es else es ++ [.write key]) := by
  by_cases hmem : key ∈ storeAfter S es
  · rw [if_pos hmem]
    exact h.leave (Or.inl hmem)
  · rw [if_neg hmem]
    have hwrite : Tracked root store (storeAfter S es) keys' keys' [.write key] := by
      refine ⟨trivial, fun _ hk hnk => absurd hk hnk, fun k hk => ?_⟩
      rw [List.mem_singleton, Event.write.injEq] at hk
      rwa [hk]
    refine (h.append hwrite).leave (Or.inl ?_)
    exact mem_storeAfter.mpr (Or.inr (by simp))

/-- **The invariant over a whole plan.** -/
theorem convertToPhysicalPlan_tracked (store : List CacheKey)
    (hid : KeysIdentify root) (hkept : CacheKept root) (p : LogicalPlan A) (hp : Subplan p root) :
    ∀ S keys, Ready root store S keys p →
      Tracked root store S keys (convertToPhysicalPlan store keys p).2
        ((convertToPhysicalPlan store keys p).1.execute S) := by
  induction p using induction_on_children with
  | h p ih =>
    intro S keys hready
    have hkeyeq : p.cacheInfo.map CacheInfo.cacheKey = p.keptKey := by
      rw [hkept p hp]
      rfl
    have hchildren := convertChildren_tracked
      (fun c hc => ih c hc ((Subplan.child hc (Subplan.refl c)).trans hp)) S
    rw [convertToPhysicalPlan_eq]
    cases hl : lookup store keys p.cacheInfo with
    | inl key =>
      obtain ⟨hkey, hmem⟩ := lookup_inl hl
      exact tracked_read hready (hkeyeq ▸ hkey) hmem
    | inr keys' =>
      rcases lookup_inr hl with ⟨hnone, rfl⟩ | ⟨info, hsome, rfl, -, -⟩
      · rw [execCacheInfo_eq, hnone, ite_self]
        exact hchildren keys' (fun c hc => hready.below hc)
      · have hkey : p.keptKey = some info.cacheKey := by rw [← hkeyeq, hsome]; rfl
        have htracked := hchildren (info.cacheKey :: keys) (fun c hc => hready.inside hid hp hkey hc)
        rw [execCacheInfo_eq, hsome]
        -- the operator of a source is built without the key, so it does not write
        cases hsrc : p.isSource with
        | true => exact htracked.leave (Or.inr ⟨p, hp, hsrc, hkey⟩)
        | false => exact htracked.write (not_sourceKey hid hp hkey hsrc)

/-! ## When every read is available -/

/-- An arrival at a key is marked as a source exactly when the key is a source key. -/
def Marked (root : LogicalPlan A) (found : List (CacheKey × Bool)) : Prop :=
  ∀ key source, (key, source) ∈ found → (source = true ↔ SourceKey root key)

theorem arrivalsChildren_marked (store : List CacheKey)
    (h : ∀ p ∈ ps, ∀ keys, Marked root (arrivals store keys p).1) (keys : List CacheKey) :
    Marked root (arrivalsChildren store keys ps).1 := by
  induction ps generalizing keys with
  | nil =>
    intro key source hmem
    cases hmem
  | cons p ps ih =>
    intro key source hmem
    rcases List.mem_append.mp hmem with hmem | hmem
    · exact h p (by simp) keys key source hmem
    · exact ih (fun q hq => h q (by simp [hq])) _ key source hmem

theorem arrivals_marked (store : List CacheKey) (hid : KeysIdentify root)
    (p : LogicalPlan A) (hp : Subplan p root) : ∀ keys, Marked root (arrivals store keys p).1 := by
  induction p using induction_on_children with
  | h p ih =>
    intro keys
    have hchildren := arrivalsChildren_marked store
      (fun c hc => ih c hc ((Subplan.child hc (Subplan.refl c)).trans hp))
    have hself : ∀ key, p.keptKey = some key → (p.isSource = true ↔ SourceKey root key) := by
      intro key hkey
      constructor
      · intro hsrc
        exact ⟨p, hp, hsrc, hkey⟩
      · intro hsrc
        by_contra hns
        exact not_sourceKey hid hp hkey (Bool.not_eq_true _ ▸ hns) hsrc
    rw [arrivals_eq]
    cases hl : lookup store keys p.keptCacheInfo with
    | inl k =>
      simp only [arrive, hl]
      intro key source hmem
      rw [List.mem_singleton, Prod.mk.injEq] at hmem
      obtain ⟨rfl, rfl⟩ := hmem
      exact hself key (lookup_inl hl).1
    | inr keys' =>
      simp only [arrive, hl]
      cases hc : p.keptCacheInfo with
      | none => exact hchildren keys'
      | some info =>
        intro key source hmem
        rcases List.mem_cons.mp hmem with heq | hmem
        · rw [Prod.mk.injEq] at heq
          obtain ⟨rfl, rfl⟩ := heq
          exact hself info.cacheKey (by rw [keptKey, hc]; rfl)
        · exact hchildren keys' key source hmem

/-- **The condition**: the converter comes to each persisted source whose key is not in the store at most
    once. -/
def SourcesReachedOnce (store : List CacheKey) (p : LogicalPlan A) : Prop :=
  ∀ key, key ∉ store → (arrivals store [] p).1.count (key, true) ≤ 1

/-- Marked arrivals at a source key are all its arrivals. -/
theorem count_source {found : List (CacheKey × Bool)}
    (h : Marked root found) (hkey : SourceKey root key) :
    found.count (key, true) = (found.map Prod.fst).count key := by
  induction found with
  | nil => rfl
  | cons head found ih =>
    obtain ⟨k, source⟩ := head
    have hhead := h k source (by simp)
    have htail := ih (fun key' source' hmem => h key' source' (by simp [hmem]))
    rw [List.map_cons, List.count_cons, List.count_cons, htail]
    by_cases hk : k = key
    · subst hk
      have hsource : source = true := hhead.mpr hkey
      simp [hsource]
    · simp [hk]

/-- **Executing a converted plan reads only available keys exactly when the converter comes to each
    unwritten persisted source at most once.** -/
theorem reads_available_iff (store : List CacheKey) (hid : KeysIdentify p)
    (hkept : CacheKept p) :
    Available store ((convertToPhysicalPlan store [] p).1.execute store) ↔ SourcesReachedOnce store p := by
  have htracked := convertToPhysicalPlan_tracked store hid hkept p (Subplan.refl p) store []
    ⟨fun _ hkey => hkey, fun _ hkey => by cases hkey⟩
  have hmarked := arrivals_marked store hid p (Subplan.refl p) []
  rw [htracked.guarded.available_iff (fun _ hkey => hkey.2)
    (fun key hkey hwrite => htracked.unwritten key hwrite hkey.1)]
  have hcount : ∀ key, key ∉ store → (((arrivals store [] p).1.map Prod.fst).count key ≤ 1 ↔
      .read key ∉ (convertToPhysicalPlan store [] p).1.execute store) := by
    intro key hkey
    have hc := count_arrivals store key p hkept [] store
    by_cases hread : .read key ∈ (convertToPhysicalPlan store [] p).1.execute store
    · -- a key that is read is known, so its first occurrence was an arrival too
      have hknown := (read_known p store [] hread).resolve_left hkey
      have hone : learnt key [] (convertToPhysicalPlan store [] p).2 = 1 := by simp [learnt, hknown]
      have hpos := List.count_pos_iff.mpr hread
      simp only [hread, not_true, iff_false]
      omega
    · have hzero := List.count_eq_zero.mpr hread
      have hle : learnt key [] (convertToPhysicalPlan store [] p).2 ≤ 1 := by
        unfold learnt
        split <;> omega
      simp only [hread, not_false_eq_true, iff_true]
      omega
  constructor
  · intro hnone key hkey
    by_cases hsrc : SourceKey p key
    · rw [count_source hmarked hsrc]
      exact (hcount key hkey).mpr (hnone key ⟨hsrc, hkey⟩)
    · have hzero : (arrivals store [] p).1.count (key, true) = 0 := by
        rw [List.count_eq_zero]
        intro hmem
        exact hsrc ((hmarked key true hmem).mp rfl)
      omega
  · rintro honce key ⟨hsrc, hkey⟩
    have hle := honce key hkey
    rw [count_source hmarked hsrc] at hle
    exact (hcount key hkey).mp hle

end PlanConverter

end Fenic
