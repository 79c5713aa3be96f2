/-
# `Tanix.Fs.Chains` — chains of clusters and their growth

A file is a chain of clusters in the cached FAT.  All that a write does to the FAT is to link
free clusters behind the last one: `Grown` says so, for one allocation (`allocCluster_spec`)
and, by composition, for any number.  A chain that shares no cluster with the one that grows
stays as it is (`Grown.other`).
-/
import Tanix.Fs.Fat
import Tanix.Lib.Links

namespace Tanix.Fs

open Memory
open List
open Function (update_of_ne update_self)

/-- A cluster number inside of the cached table. -/
def IsNode (c : Nat) : Prop :=
  2 ≤ c ∧ c < maxCachedClusters

/-- An end-of-chain mark. -/
def IsEnd (v : Nat) : Prop :=
  0xFFF8 ≤ v

namespace Fat16

variable {fs fs' fs₁ fs₂ : Fat16} {cs cs' cs₁ cs₂ ds : List Nat} {c : Nat}

/-! ## Entries -/

/-- The volume with one entry of the cache replaced. -/
def withEntry (fs : Fat16) (cluster value : Nat) : Fat16 :=
  { fs with fat := store fs.fat (cluster * 2) (le 2 value) }

theorem fatEntry_eq (h : c < maxCachedClusters) : fs.fatEntry c = .ok (fs.entryAt c) :=
  if_pos (by simp only [fatLen, maxCachedClusters] at h ⊢; omega)

theorem setFatEntry_eq (h : c < maxCachedClusters) (v : Nat) : fs.setFatEntry c v = .ok (fs.withEntry c v) :=
  if_pos (by simp only [fatLen, maxCachedClusters] at h ⊢; omega)

theorem nextCluster_eq (h : c < maxCachedClusters) : fs.nextCluster c = .ok (successor (fs.entryAt c)) := by
  rw [nextCluster, fatEntry_eq h]
  rfl

theorem entryAt_withEntry (fs : Fat16) (c : Nat) {v : Nat} (hv : v < 65536) :
    (fs.withEntry c v).entryAt = Function.update fs.entryAt c v := by
  funext c'
  show fromLe (load (store fs.fat (c * 2) (le 2 v)) (c' * 2) 2) = _
  by_cases hc : c' = c
  · rw [hc, update_self, load_store_self _ _ (le_length ..), fromLe_le]
    exact Nat.mod_eq_of_lt hv
  · rw [update_of_ne hc, load_store_of_apart (by rw [le_length]; omega)]
    rfl

theorem findFree_eq {l : List Nat} (h : ∀ c ∈ l, c < maxCachedClusters) :
    fs.findFree l = .ok (l.find? fun c => fs.entryAt c = 0) := by
  induction l with
  | nil => rfl
  | cons c l ih =>
    rw [findFree, fatEntry_eq (h c mem_cons_self), find?_cons]
    show (if fs.entryAt c = 0 then Except.ok (some c) else fs.findFree l) = _
    by_cases hc : fs.entryAt c = 0
    · rw [if_pos hc, decide_eq_true hc]
    · rw [if_neg hc, decide_eq_false hc, ih fun c' hc' => h c' (mem_cons_of_mem c hc')]

theorem mem_candidates : c ∈ fs.candidates ↔ 2 ≤ c ∧ c < fs.fatEntries := by
  rw [candidates, mem_range'_1]
  omega

/-! ## Growth -/

/-- Chain `cs` of `fs` has become chain `cs'` of `fs'`: clusters that were free have been linked
behind it, and nothing else has changed. -/
structure Grown (fs : Fat16) (cs : List Nat) (fs' : Fat16) (cs' : List Nat) : Prop where
  same : ∃ fat, fs' = { fs with fat := fat }
  chain : Links.Chain fs'.entryAt IsNode IsEnd cs'
  added : ∃ new, cs' = cs ++ new ∧ (∀ c ∈ new, c < fs.fatEntries ∧ fs.entryAt c = 0) ∧
    fs'.freeClusters + new.length = fs.freeClusters
  frame : ∀ c, c ∉ cs' → fs'.entryAt c = fs.entryAt c

theorem Grown.refl (h : Links.Chain fs.entryAt IsNode IsEnd cs) : Grown fs cs fs cs where
  same := ⟨fs.fat, rfl⟩
  chain := h
  added := ⟨[], (append_nil cs).symm, fun _ hc => (not_mem_nil hc).elim, rfl⟩
  frame _ _ := rfl

theorem chain_ne_zero (h : Links.Chain fs.entryAt IsNode IsEnd cs) (hc : c ∈ cs) : fs.entryAt c ≠ 0 :=
  h.link_ne (fun h0 => absurd h0.1 (by decide)) (by simp only [IsEnd]; decide) hc

theorem Grown.trans (h : Grown fs cs fs₁ cs₁) (h' : Grown fs₁ cs₁ fs₂ cs₂) : Grown fs cs fs₂ cs₂ := by
  obtain ⟨⟨fat₁, rfl⟩, hchain₁, ⟨new₁, rfl, hfree₁, hcount₁⟩, hframe₁⟩ := h
  obtain ⟨⟨fat₂, rfl⟩, hchain₂, ⟨new₂, rfl, hfree₂, hcount₂⟩, hframe₂⟩ := h'
  refine ⟨⟨fat₂, rfl⟩, hchain₂, ⟨new₁ ++ new₂, append_assoc .., ?_, ?_⟩, ?_⟩
  · intro c hc
    rcases mem_append.mp hc with hc | hc
    · exact hfree₁ c hc
    · -- free after the first growth, so not in the chain, so as it was before
      obtain ⟨hlt, hzero⟩ := hfree₂ c hc
      rw [← hframe₁ c fun hin => chain_ne_zero hchain₁ hin hzero]
      exact ⟨hlt, hzero⟩
  · rw [length_append, ← hcount₁, ← hcount₂]
    omega
  · intro c hc
    rw [hframe₂ c hc, hframe₁ c fun hin => hc (mem_append_left _ hin)]

/-- Another chain shares no cluster with the grown one, and is what it was. -/
theorem Grown.other (h : Grown fs cs fs' cs') (hds : Links.Chain fs.entryAt IsNode IsEnd ds)
    (hapart : cs.Disjoint ds) : cs'.Disjoint ds ∧ Links.Chain fs'.entryAt IsNode IsEnd ds := by
  obtain ⟨new, rfl, hfree, -⟩ := h.added
  have hdisj : (cs ++ new).Disjoint ds := by
    intro c hc hd
    rcases mem_append.mp hc with hc | hc
    · exact hapart hc hd
    · exact chain_ne_zero hds hd (hfree c hc).2
  exact ⟨hdisj, hds.congr fun c hc => h.frame c fun hin => hdisj hin hc⟩

theorem Grown.geometry (h : Grown fs cs fs' cs') : fs'.clusterBytes = fs.clusterBytes := by
  obtain ⟨_, rfl⟩ := h.same
  rfl

/-! ## Allocation -/

/-- One element of a list stops counting. -/
theorem countP_flip {l : List Nat} {p q : Nat → Bool} (hl : l.Nodup) (hc : c ∈ l) (hp : p c = true)
    (hq : q c = false) (hsame : ∀ b, b ≠ c → q b = p b) : l.countP q + 1 = l.countP p := by
  induction l with
  | nil => cases hc
  | cons a l ih =>
    obtain ⟨ha, hl⟩ := nodup_cons.mp hl
    rcases mem_cons.mp hc with rfl | hc
    · have hrest : l.countP q = l.countP p :=
        countP_congr fun b hb => by rw [hsame b fun heq => ha (heq ▸ hb)]
      rw [countP_cons_of_neg (by rw [hq]; decide), countP_cons_of_pos hp, hrest]
    · have hac : a ≠ c := fun heq => ha (heq ▸ hc)
      rw [countP_cons, countP_cons, hsame a hac, ← ih hl hc]
      omega

/-- The last cluster of a chain, 0 for an empty one. -/
def lastOf (cs : List Nat) : Nat :=
  cs.getLast?.getD 0

/-- The first free cluster is taken for the end of a chain, and linked behind `prev` if there is
one. -/
theorem allocCluster_cases (hentries : fs.fatEntries ≤ maxCachedClusters) {prev : Nat}
    (hprev : prev < maxCachedClusters) :
    (fs.allocCluster prev = .ok none ∧ fs.freeClusters = 0) ∨
      ∃ c fat, fs.allocCluster prev = .ok (some ({ fs with fat := fat }, c)) ∧ c ∈ fs.candidates ∧
        fs.entryAt c = 0 ∧ ∀ b, entryAt { fs with fat := fat } b =
          if prev ≠ 0 ∧ b = prev then c else if b = c then fatEoc else fs.entryAt b := by
  have hlow : ∀ c ∈ fs.candidates, c < maxCachedClusters := fun c hc =>
    Nat.lt_of_lt_of_le (mem_candidates.mp hc).2 hentries
  rw [allocCluster, findFree_eq hlow]
  cases hfind : fs.candidates.find? fun c => fs.entryAt c = 0 with
  | none =>
    refine Or.inl ⟨rfl, countP_eq_zero.mpr fun c hc => ?_⟩
    exact find?_eq_none.mp hfind c hc
  | some c =>
    have hmem := mem_of_find?_eq_some hfind
    have hzero : fs.entryAt c = 0 := of_decide_eq_true (find?_some (p := fun c => fs.entryAt c = 0) hfind)
    have hend := entryAt_withEntry fs c (show fatEoc < 65536 by decide)
    refine Or.inr ⟨c, ?_⟩
    simp only [bind, Except.bind, setFatEntry_eq (hlow c hmem)]
    by_cases h0 : prev = 0
    · refine ⟨(fs.withEntry c fatEoc).fat, ?_, hmem, hzero, fun b => ?_⟩
      · rw [if_neg (not_not_intro h0)]
        rfl
      · rw [if_neg fun h => h.1 h0, ← Function.update_apply]
        exact congrFun hend b
    · refine ⟨((fs.withEntry c fatEoc).withEntry prev c).fat, ?_, hmem, hzero, fun b => ?_⟩
      · rw [if_pos h0, setFatEntry_eq hprev]
        rfl
      · simp only [ne_eq, h0, not_false_eq_true, true_and]
        rw [← Function.update_apply fs.entryAt, ← Function.update_apply, ← hend]
        exact congrFun (entryAt_withEntry _ prev (Nat.lt_trans (hlow c hmem) (by decide))) b

theorem allocCluster_spec (hentries : fs.fatEntries ≤ maxCachedClusters)
    (hchain : Links.Chain fs.entryAt IsNode IsEnd cs) :
    (fs.allocCluster (lastOf cs) = .ok none ∧ fs.freeClusters = 0) ∨
      ∃ c fs', fs.allocCluster (lastOf cs) = .ok (some (fs', c)) ∧ Grown fs cs fs' (cs ++ [c]) := by
  have hnz : ∀ a, cs.getLast? = some a → a ≠ 0 ∧ a < maxCachedClusters := by
    intro a ha
    obtain ⟨htwo, hlt⟩ := hchain.node (mem_of_getLast? ha)
    exact ⟨by omega, hlt⟩
  have hprev : lastOf cs < maxCachedClusters := by
    rw [lastOf]
    cases hlast : cs.getLast? with
    | none => decide
    | some a => exact (hnz a hlast).2
  rcases allocCluster_cases hentries hprev with hnone | ⟨c, fat, hrun, hmem, hzero, hlink⟩
  · exact Or.inl hnone
  · have hnew : c ∉ cs := fun hin => chain_ne_zero hchain hin hzero
    obtain ⟨htwo, hlt⟩ := mem_candidates.mp hmem
    -- the entries, by the last cluster of the chain
    have hprev : ∀ b, (lastOf cs ≠ 0 ∧ b = lastOf cs) ↔ cs.getLast? = some b := by
      intro b
      rw [lastOf]
      cases hlast : cs.getLast? with
      | none => simp
      | some a => simp [(hnz a hlast).1, eq_comm]
    simp only [hprev] at hlink
    have hc : ¬ cs.getLast? = some c := fun h => hnew (mem_of_getLast? h)
    refine Or.inr ⟨c, _, hrun, ⟨fat, rfl⟩, hchain.snoc hnew ⟨htwo, Nat.lt_of_lt_of_le hlt hentries⟩ ?_ ?_ ?_,
      ⟨[c], rfl, ?_, ?_⟩, ?_⟩
    · rw [hlink, if_neg hc, if_pos rfl]
      exact (by decide : 0xFFF8 ≤ fatEoc)
    · intro a ha
      rw [hlink, if_pos ha]
    · intro a ha hne
      rw [hlink, if_neg hne, if_neg (ne_of_mem_of_not_mem ha hnew)]
    · intro b hb
      rw [mem_singleton.mp hb]
      exact ⟨hlt, hzero⟩
    · refine countP_flip nodup_range' hmem (decide_eq_true hzero) (decide_eq_false ?_) fun b hb =>
        decide_eq_decide.mpr ?_
      · rw [hlink, if_neg hc, if_pos rfl]
        decide
      · rw [hlink, if_neg hb]
        split
        · rename_i hlast
          exact iff_of_false (by omega) (chain_ne_zero hchain (mem_of_getLast? hlast))
        · exact Iff.rfl
    · intro b hb
      rw [hlink, if_neg fun h => hb (mem_append_left _ (mem_of_getLast? h)),
        if_neg fun heq => hb (mem_append_right _ (mem_singleton.mpr heq))]

end Fat16

end Tanix.Fs
