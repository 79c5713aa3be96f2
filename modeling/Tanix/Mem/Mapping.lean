/-
# `Tanix.Mem.Mapping` — the mapping helpers keep the forest

`ensure_table` and `map_user_frame`, each as growth of the tree it is called for (`Grows`).
`map_user_frame` needs a condition: where level 2 has a block, it takes the block for a table.
-/
import Tanix.Mem.Tables

namespace Tanix

open Forest

variable {o : Nat} {A : Nat → Nat → Prop} {r r' : Ram} {L : Labels}

/-! ## One level -/

variable {p q root va pa : Nat}

/-- `ensure_table` follows a valid entry, or hangs a zeroed table in. -/
theorem ensureTable_cases (hw : Window r.frames) {i : Idx} (hr : r.ensureTable p i = .ok (r', q)) :
    (isValid (r.mem p i) = true ∧ r' = r ∧ q = addrOf (r.mem p i)) ∨
      (isValid (r.mem p i) = false ∧ ∃ r₀, TakesFrame r r₀ q ∧
        r' = (r₀.setPage q fun _ => 0).setEntry p i (q ||| descValid ||| descTable)) := by
  unfold Ram.ensureTable at hr
  split at hr
  · rename_i hv
    cases hr
    exact Or.inl ⟨hv, rfl, rfl⟩
  · rename_i hv
    obtain ⟨⟨r₁, child⟩, hchild, hr⟩ := bind_eq_ok.mp hr
    cases hr
    unfold Ram.allocTable at hchild
    split at hchild
    · cases hchild
    · rename_i r₀ q hq
      cases hchild
      exact Or.inr ⟨Bool.eq_false_iff.mpr hv, r₀, allocFrame_takes hw hq, rfl⟩

/-- `ensure_table` on an entry that is no block leads to a table one level down. -/
theorem ensureTable_error {i : Idx} {e : Panic} (h : r.ensureTable p i = .error e) :
    e = .pageTableOom := by
  unfold Ram.ensureTable at h
  split at h
  · cases h
  · unfold Ram.allocTable at h
    cases hf : r.allocFrame with
    | none =>
      rw [hf] at h
      cases h
      rfl
    | some rf =>
      rw [hf] at h
      cases h

variable {path : List Idx}

theorem ensureTable_grows (h : Tables r L A) {i : Idx} (hp : L p = some (o, path))
    (hd : path.length < 3) (hb : path.length = 2 → isBlock (r.mem p i) = false)
    (hr : r.ensureTable p i = .ok (r', q)) :
    ∃ L', Grows o A r L r' L' ∧ L' q = some (o, i :: path) := by
  rcases ensureTable_cases h.window hr with ⟨hv, rfl, rfl⟩ | ⟨hv, r₀, htake, rfl⟩
  · have htable : isTable (r'.mem p i) = true := by
      rcases Nat.lt_or_ge path.length 2 with hlt | hge
      · exact h.upper p o path i hp hlt hv
      · exact isTable_of_not_isBlock hv (hb (by omega))
    exact ⟨L, .refl h, h.closed p o path i _ hp (Ram.child_some.mpr ⟨hd, htable, rfl⟩)⟩
  · have hentry : isTable (r.mem p i) = false := by
      rw [isTable, hv]
      rfl
    refine ⟨_, h.hang htake hp hd hentry (fun _ _ => rfl) (fun _ hz => by cases hz), ?_⟩
    rw [graft_new (single_self q)]
    rfl

/-! ## The upper levels -/

/-- The level-2 entry for an address; 0 where the walk ends before. -/
def Ram.level2 (r : Ram) (root va : Nat) : Nat :=
  if isValid (r.mem root (l0Idx va)) then
    if isValid (r.mem (addrOf (r.mem root (l0Idx va))) (l1Idx va)) then
      r.mem (addrOf (r.mem (addrOf (r.mem root (l0Idx va))) (l1Idx va))) (l2Idx va)
    else 0
  else 0

/-- A table just hung in is empty. -/
theorem hung_mem {i j : Idx} (hne : q ≠ p) {v : Nat} {r₀ : Ram} :
    ((r₀.setPage q fun _ => 0).setEntry p i v).mem q j = 0 := by
  rw [Ram.setEntry_mem_ne _ _ hne, Ram.setPage_mem_same]

/-- The two upper levels of a walk that makes tables where there are none. -/
theorem upper_grows (h : Tables r L A) {l1 l2 : Nat} {r₁ r₂ : Ram} (hroot : L root = some (o, []))
    (hr₁ : r.ensureTable root (l0Idx va) = .ok (r₁, l1))
    (hr₂ : r₁.ensureTable l1 (l1Idx va) = .ok (r₂, l2)) :
    ∃ L', Grows o A r L r₂ L' ∧ L' l2 = some (o, [l1Idx va, l0Idx va]) ∧
      r₂.mem l2 (l2Idx va) = r.level2 root va := by
  obtain ⟨L₁, hg₁, hl1⟩ := ensureTable_grows h hroot (by decide) (fun hc => by cases hc) hr₁
  obtain ⟨L₂, hg₂, hl2⟩ := ensureTable_grows hg₁.tables hl1 (by simp) (fun hc => by simp at hc) hr₂
  refine ⟨L₂, hg₁.trans hg₂, hl2, ?_⟩
  have hne : ∀ {r₀ : Ram}, TakesFrame r₁ r₀ l2 → l2 ≠ l1 := by
    rintro r₀ htake rfl
    exact hg₁.tables.used _ _ hl1 htake.free
  unfold Ram.level2
  rcases ensureTable_cases h.window hr₁ with ⟨hv, rfl, rfl⟩ | ⟨hv, r₀, htake, hr₁⟩
  · rw [if_pos hv]
    rcases ensureTable_cases h.window hr₂ with ⟨hv', rfl, rfl⟩ | ⟨hv', r₀, htake, hr₂⟩
    · rw [if_pos hv']
    · rw [hv', hr₂]
      exact hung_mem (hne htake)
  · rw [hv]
    have hzero : r₁.mem l1 (l1Idx va) = 0 := by
      rw [hr₁]
      refine hung_mem ?_
      rintro rfl
      exact h.used _ _ hroot htake.free
    rcases ensureTable_cases hg₁.tables.window hr₂ with ⟨hv', -, -⟩ | ⟨-, r₀, htake, hr₂⟩
    · rw [hzero] at hv'
      cases hv'
    · rw [hr₂]
      exact hung_mem (hne htake)

/-- The flags are off the address bits, and give EL0 access only where it is allowed. -/
structure MayMap (A : Nat → Nat → Prop) (o pa flags : Nat) : Prop where
  off : flags &&& addrMask = 0
  allowed : el0Access flags = true → A o (addrOf pa)

variable {flags : Nat}

/-! ## `map_user_frame` -/

theorem mapUserFrame_grows (h : Tables r L A) (hroot : L root = some (o, []))
    (hb : isBlock (r.level2 root va) = false) (hm : MayMap A o pa flags)
    (hr : r.mapUserFrame root va pa flags = .ok r') : ∃ L', Grows o A r L r' L' := by
  unfold Ram.mapUserFrame at hr
  split at hr
  · cases hr
  · rename_i hal
    obtain ⟨⟨r₁, l1⟩, hr₁, hr⟩ := bind_eq_ok.mp hr
    obtain ⟨⟨r₂, l2⟩, hr₂, hr⟩ := bind_eq_ok.mp hr
    obtain ⟨⟨r₃, l3⟩, hr₃, hr⟩ := bind_eq_ok.mp hr
    cases hr
    obtain ⟨L₂, hg₂, hl2, hentry⟩ := upper_grows h hroot hr₁ hr₂
    obtain ⟨L₃, hg₃, hl3⟩ :=
      ensureTable_grows hg₂.tables hl2 (by simp) (fun _ => by rw [hentry]; exact hb) hr₃
    have hg₄ := hg₃.tables.write (v := pa ||| flags) hl3 rfl (l3Idx va) fun _ hel0 => by
      rw [el0Access_or (not_not.mp fun hne => hal (Or.inr hne))] at hel0
      rw [addrOf_or hm.off]
      exact hm.allowed hel0
    exact ⟨L₃, (hg₂.trans hg₃).trans hg₄⟩

/-- For page addresses `map_user_frame` stops only for want of a frame. -/
theorem mapUserFrame_error {e : Panic} (hva : va % pageSize = 0) (hpa : pa % pageSize = 0)
    (hr : r.mapUserFrame root va pa flags = .error e) : e = .pageTableOom := by
  unfold Ram.mapUserFrame at hr
  rw [if_neg (by simp [hva, hpa])] at hr
  rcases bind_eq_error.mp hr with hr | ⟨⟨r₁, l1⟩, -, hr⟩
  · exact ensureTable_error hr
  rcases bind_eq_error.mp hr with hr | ⟨⟨r₂, l2⟩, -, hr⟩
  · exact ensureTable_error hr
  rcases bind_eq_error.mp hr with hr | ⟨⟨r₃, l3⟩, -, hr⟩
  · exact ensureTable_error hr
  · cases hr

end Tanix
