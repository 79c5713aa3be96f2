/-
# `Tanix.Mem.Walk` — where a walk through the tables ends

A walk for an address follows table descriptors down from a root and ends at the first
descriptor that is none, at level 3 at the latest.  `walkEnd` is that descriptor with the
number of levels below it, and everything the kernel or the hardware can find out about an
address is in it: `read_user_page` (`readUserPage_eq`), whether there is a block
(`walkEnd_of_block`), the translation (`Tanix.Mem.Access`).

What the mapping helpers do to the walks of all addresses in all trees of the forest:

    ensure_table     a walk that ended at the empty entry ends at an empty one further down;
                     the others end where they did                    (`ensureTable_walk`)
    a page written   the one walk that leads there ends at the new descriptor, the others
                     where they did                                      (`write_walk`)
-/
import Tanix.Mem.Mapping

namespace Tanix

open Forest

/-- The index of an address in a table with `rem` levels below it. -/
def levelIdx (rem va : Nat) : Idx :=
  idxAt (12 + 9 * rem) va

/-- The indices on the way down through `rem` levels, last first. -/
def pathDown : Nat → Nat → List Idx
  | 0, _ => []
  | rem + 1, va => pathDown rem va ++ [levelIdx (rem + 1) va]

theorem pathDown_three (va : Nat) : pathDown 3 va = [l2Idx va, l1Idx va, l0Idx va] :=
  rfl

/-- The descriptor at which the walk from a table ends, and the levels below it. -/
def Ram.walkEnd (r : Ram) : Nat → Nat → Nat → Nat × Nat
  | 0, p, va => (0, r.mem p (levelIdx 0 va))
  | rem + 1, p, va =>
    let e := r.mem p (levelIdx (rem + 1) va)
    if isTable e then r.walkEnd rem (addrOf e) va else (rem + 1, e)

/-- A walk ends as it did, or its empty end has moved down to an empty entry. -/
def WalkKept (e e' : Nat × Nat) : Prop :=
  e' = e ∨ (e.1 ≠ 0 ∧ isValid e.2 = false ∧ e'.2 = 0)

theorem WalkKept.refl (e : Nat × Nat) : WalkKept e e :=
  Or.inl rfl

variable {e e' : Nat × Nat}

theorem WalkKept.trans {e'' : Nat × Nat} (h : WalkKept e e') (h' : WalkKept e' e'') :
    WalkKept e e'' := by
  rcases h with rfl | ⟨h0, hv, he⟩
  · exact h'
  · rcases h' with rfl | ⟨-, -, he'⟩
    · exact Or.inr ⟨h0, hv, he⟩
    · exact Or.inr ⟨h0, hv, he'⟩

/-- A walk that ends at a valid descriptor ends there still. -/
theorem WalkKept.of_valid (h : WalkKept e e') (hv : isValid e.2 = true) : e' = e := by
  rcases h with rfl | ⟨-, hinv, -⟩
  · rfl
  · rw [hv] at hinv
    cases hinv

theorem WalkKept.valid_iff (h : WalkKept e e') : isValid e'.2 = isValid e.2 := by
  rcases h with rfl | ⟨-, hinv, he'⟩
  · rfl
  · rw [hinv, he']
    rfl

variable {o o' : Nat} {A : Nat → Nat → Prop} {r r' : Ram} {L : Labels} {va : Nat}

theorem walkEnd_root {root : Nat} : r.walkEnd 3 root va =
    if isTable (r.mem root (l0Idx va)) then
      if isTable (r.mem (addrOf (r.mem root (l0Idx va))) (l1Idx va)) then
        if isTable (r.mem (addrOf (r.mem (addrOf (r.mem root (l0Idx va))) (l1Idx va))) (l2Idx va)) then
          (0, r.mem (addrOf (r.mem (addrOf (r.mem (addrOf (r.mem root (l0Idx va))) (l1Idx va)))
            (l2Idx va))) (l3Idx va))
        else (1, r.mem (addrOf (r.mem (addrOf (r.mem root (l0Idx va))) (l1Idx va))) (l2Idx va))
      else (2, r.mem (addrOf (r.mem root (l0Idx va))) (l1Idx va))
    else (3, r.mem root (l0Idx va)) :=
  rfl

variable {p q va' : Nat}

theorem walkEnd_step {rem : Nat} (h : isTable (r.mem p (levelIdx (rem + 1) va)) = true) :
    r.walkEnd (rem + 1) p va = r.walkEnd rem (addrOf (r.mem p (levelIdx (rem + 1) va))) va :=
  if_pos h

theorem walkEnd_stop {rem : Nat} (h : isTable (r.mem p (levelIdx (rem + 1) va)) = false) :
    r.walkEnd (rem + 1) p va = (rem + 1, r.mem p (levelIdx (rem + 1) va)) :=
  if_neg (by rw [h]; exact Bool.false_ne_true)

/-- In an empty table every walk ends at once. -/
theorem walkEnd_empty (h : ∀ j, r.mem p j = 0) (rem va : Nat) : (r.walkEnd rem p va).2 = 0 := by
  cases rem with
  | zero => exact h _
  | succ rem =>
    rw [walkEnd_stop (by rw [h]; rfl)]
    exact h _

variable {path : List Idx} {i j : Idx}

section

variable (h : Tables r L A)

include h

/-- The label of the table that a table descriptor leads to. -/
theorem Tables.below (hp : L p = some (o, path)) (hd : path.length < 3)
    (ht : isTable (r.mem p i) = true) : L (addrOf (r.mem p i)) = some (o, i :: path) :=
  h.closed p o path i _ hp (Ram.child_some.mpr ⟨hd, ht, rfl⟩)

/-! ## Memory outside of the tables -/

/-- The tables do not mind what is written elsewhere. -/
theorem Tables.elsewhere (hf : r'.frames = r.frames)
    (hmem : ∀ p l, L p = some l → r'.mem p = r.mem p) : Tables r' L A := by
  refine .of_entries (hf ▸ h.window) ?_ (fun p o path hp => ?_) fun p o path i hp => ?_
  · refine h.closed.congr fun p o path i hp => ?_
    rw [Ram.child, Ram.child, hmem p _ hp]
  · rw [Ram.IsFree, hf]
    exact ⟨h.used p _ hp, h.page p _ hp, h.depth p o path hp⟩
  · rw [hmem p _ hp]
    exact h.entry hp i

/-- Two memories: a walk is the same in both, or it comes to an entry that is not. -/
theorem walk_compare (r' : Ram) (va rem : Nat) :
    ∀ {x : Nat} {way : List Idx}, L x = some (o, way) → way.length + rem = 3 →
      r'.walkEnd rem x va = r.walkEnd rem x va ∨
        ∃ y way' rem', L y = some (o, way') ∧ way'.length + rem' = 3 ∧
          r'.mem y (levelIdx rem' va) ≠ r.mem y (levelIdx rem' va) ∧ pathDown rem' va ++ way' = pathDown rem va ++ way ∧
          r.walkEnd rem x va = r.walkEnd rem' y va ∧ r'.walkEnd rem x va = r'.walkEnd rem' y va := by
  induction rem with
  | zero =>
    intro x way hx hlen
    by_cases hsame : r'.mem x (levelIdx 0 va) = r.mem x (levelIdx 0 va)
    · exact Or.inl (congrArg (Prod.mk 0) hsame)
    · exact Or.inr ⟨x, way, 0, hx, hlen, hsame, rfl, rfl, rfl⟩
  | succ rem ih =>
    intro x way hx hlen
    by_cases hsame : r'.mem x (levelIdx (rem + 1) va) = r.mem x (levelIdx (rem + 1) va)
    · cases ht : isTable (r.mem x (levelIdx (rem + 1) va)) with
      | false => exact Or.inl (by rw [walkEnd_stop ht, walkEnd_stop (r := r') (by rwa [hsame]), hsame])
      | true =>
        have hway : (levelIdx (rem + 1) va :: way).length + rem = 3 := by
          rw [List.length_cons]
          omega
        rw [walkEnd_step ht, walkEnd_step (r := r') (by rwa [hsame]), hsame]
        rcases ih (h.below hx (by omega) ht) hway with he | ⟨y, way', rem', hy, hlen', hne, hpath, hwalks⟩
        · exact Or.inl he
        · refine Or.inr ⟨y, way', rem', hy, hlen', hne, hpath.trans ?_, hwalks⟩
          rw [pathDown, List.append_assoc]
          rfl
    · exact Or.inr ⟨x, way, rem + 1, hx, hlen, hsame, rfl, rfl, rfl⟩

theorem elsewhere_walk (hmem : ∀ p l, L p = some l → r'.mem p = r.mem p) (rem : Nat) {x : Nat} {way : List Idx}
    (hx : L x = some (o, way)) (hlen : way.length + rem = 3) : r'.walkEnd rem x va = r.walkEnd rem x va := by
  rcases walk_compare h r' va rem hx hlen with he | ⟨y, _, _, hy, -, hne, -⟩
  · exact he
  · exact absurd (congrFun (hmem y _ hy) _) hne

/-! ## Hanging a table in -/

theorem hang_walk {r₁ : Ram} (hq : TakesFrame r r₁ q) (hp : L p = some (o, path))
    (hd : path.length < 3) (hentry : isValid (r.mem p i) = false) (rem : Nat) {x : Nat} {way : List Idx}
    (hx : L x = some (o', way)) (hlen : way.length + rem = 3) :
    WalkKept (r.walkEnd rem x va)
      (((r₁.setPage q fun _ => 0).setEntry p i (q ||| descValid ||| descTable)).walkEnd rem x va) := by
  have hLq := h.unlabelled hq.free
  have hne : ∀ {x : Nat} {l : Nat × List Idx}, L x = some l → x ≠ q := by
    rintro x l hx rfl
    rw [hLq] at hx
    cases hx
  have hmem : ∀ {x : Nat} {l : Nat × List Idx} (j : Idx), L x = some l →
      ((r₁.setPage q fun _ => 0).setEntry p i (q ||| descValid ||| descTable)).mem x j =
        if x = p ∧ j = i then q ||| descValid ||| descTable else r.mem x j := by
    intro x l j hx
    rw [Ram.setEntry_mem, Ram.setPage_mem_ne _ _ (hne hx), hq.mem]
  have hempty : ∀ j, ((r₁.setPage q fun _ => 0).setEntry p i (q ||| descValid ||| descTable)).mem q j
      = 0 := fun j => hung_mem (hne hp).symm
  generalize (r₁.setPage q fun _ => 0).setEntry p i (q ||| descValid ||| descTable) = r' at *
  rcases walk_compare h r' va rem hx hlen with he | ⟨y, way', rem', hy, hlen', hdiff, -, hwalk, hwalk'⟩
  · exact Or.inl he
  · -- the new table hangs at the entry that differs, above level 3
    rw [hmem _ hy] at hdiff
    obtain ⟨rfl, rfl⟩ := not_imp_comm.mp (if_neg (α := Nat)) hdiff
    rw [hp] at hy
    cases hy
    obtain ⟨rem, rfl⟩ := Nat.exists_eq_succ_of_ne_zero (show rem' ≠ 0 by omega)
    have hstop : isTable (r.mem y (levelIdx (rem + 1) va)) = false := by
      rw [isTable, hentry]
      rfl
    have hnew := hmem (levelIdx (rem + 1) va) hp
    rw [if_pos ⟨rfl, rfl⟩] at hnew
    rw [hwalk, hwalk', walkEnd_stop hstop, walkEnd_step (r := r') (by rw [hnew]; exact isTable_tableDesc hq.page),
      hnew, addrOf_tableDesc hq.page]
    exact Or.inr ⟨Nat.succ_ne_zero rem, hentry, walkEnd_empty hempty rem va⟩

section

variable (hp : L p = some (o, path))

include hp

theorem ensureTable_walk (hd : path.length < 3) (hr : r.ensureTable p i = .ok (r', q))
    {root : Nat} (hroot : L root = some (o', [])) (va : Nat) :
    WalkKept (r.walkEnd 3 root va) (r'.walkEnd 3 root va) := by
  rcases ensureTable_cases h.window hr with ⟨-, rfl, -⟩ | ⟨hv, r₀, htake, rfl⟩
  · exact .refl _
  · exact hang_walk h htake hp hd hv 3 hroot rfl

/-- After `ensure_table` there is a table descriptor for the table it returns. -/
theorem ensureTable_entry (hd : path.length < 3)
    (hb : path.length = 2 → isBlock (r.mem p i) = false) (hr : r.ensureTable p i = .ok (r', q)) :
    isTable (r'.mem p i) = true ∧ addrOf (r'.mem p i) = q := by
  rcases ensureTable_cases h.window hr with ⟨hv, rfl, rfl⟩ | ⟨-, r₀, htake, rfl⟩
  · refine ⟨?_, rfl⟩
    rcases Nat.lt_or_ge path.length 2 with hlt | hge
    · exact h.upper p o path i hp hlt hv
    · exact isTable_of_not_isBlock hv (hb (by omega))
  · rw [Ram.setEntry_mem, if_pos ⟨rfl, rfl⟩]
    exact ⟨isTable_tableDesc htake.page, addrOf_tableDesc htake.page⟩

/-- Entries that lead to tables are never touched by `ensure_table`. -/
theorem ensureTable_keeps {x : Nat} {l : Nat × List Idx} (hr : r.ensureTable p i = .ok (r', q))
    (hx : L x = some l) (ht : isTable (r.mem x j) = true) : r'.mem x j = r.mem x j := by
  rcases ensureTable_cases h.window hr with ⟨-, rfl, -⟩ | ⟨hv, r₀, htake, rfl⟩
  · rfl
  · have hxq : x ≠ q := by
      rintro rfl
      rw [h.unlabelled htake.free] at hx
      cases hx
    rw [Ram.setEntry_mem, Ram.setPage_mem_ne _ _ hxq, htake.mem, if_neg]
    rintro ⟨rfl, rfl⟩
    rw [isTable, hv] at ht
    cases ht

/-! ## Writing a page descriptor -/

/-- Only the walk along `path` to entry `i` sees a write there. -/
theorem write_walk_from (hd : path.length = 3) (i : Idx) (v rem : Nat) {x : Nat} {way : List Idx}
    (hx : L x = some (o', way)) (hlen : way.length + rem = 3) :
    (r.setEntry p i v).walkEnd rem x va = r.walkEnd rem x va ∨
      (o' = o ∧ pathDown rem va ++ way = path ∧ levelIdx 0 va = i) := by
  rcases walk_compare h (r.setEntry p i v) va rem hx hlen with he | ⟨y, way', rem', hy, hlen', hdiff, hpath, -⟩
  · exact Or.inl he
  · rw [Ram.setEntry_mem] at hdiff
    obtain ⟨rfl, hi⟩ := not_imp_comm.mp (if_neg (α := Nat)) hdiff
    rw [hp] at hy
    cases hy
    obtain rfl : rem' = 0 := by omega
    exact Or.inr ⟨rfl, hpath.symm, hi⟩

end

end

/-- Two addresses with the same four indices. -/
def SameSlot (va va' : Nat) : Prop :=
  pathDown 3 va' = pathDown 3 va ∧ l3Idx va' = l3Idx va

theorem write_walk (h : Tables r L A) (hp : L p = some (o, pathDown 3 va)) (v : Nat) {root : Nat}
    (hroot : L root = some (o', [])) (hother : ¬ (o' = o ∧ SameSlot va va')) :
    (r.setEntry p (l3Idx va) v).walkEnd 3 root va' = r.walkEnd 3 root va' := by
  rcases write_walk_from h hp rfl (l3Idx va) v 3 hroot rfl with he | ⟨ho, hpath, hi⟩
  · exact he
  · rw [List.append_nil] at hpath
    exact absurd ⟨ho, hpath, hi⟩ hother

/-- The tables on the way of a walk that reaches level 3. -/
structure Leads (r : Ram) (root va l1 l2 l3 : Nat) : Prop where
  top : isTable (r.mem root (l0Idx va)) = true ∧ addrOf (r.mem root (l0Idx va)) = l1
  mid : isTable (r.mem l1 (l1Idx va)) = true ∧ addrOf (r.mem l1 (l1Idx va)) = l2
  low : isTable (r.mem l2 (l2Idx va)) = true ∧ addrOf (r.mem l2 (l2Idx va)) = l3

section Leads

variable {root l1 l2 l3 : Nat}

theorem Leads.walkEnd (hl : Leads r root va l1 l2 l3) :
    r.walkEnd 3 root va = (0, r.mem l3 (l3Idx va)) := by
  rw [walkEnd_root, hl.top.1, if_pos rfl, hl.top.2, hl.mid.1, if_pos rfl, hl.mid.2, hl.low.1,
    if_pos rfl, hl.low.2]

theorem leads_of_walkEnd (h0 : (r.walkEnd 3 root va).1 = 0) : ∃ l1 l2 l3, Leads r root va l1 l2 l3 := by
  rw [walkEnd_root] at h0
  split at h0
  · rename_i ht
    split at h0
    · rename_i ht₁
      split at h0
      · rename_i ht₂
        exact ⟨_, _, _, ⟨ht, rfl⟩, ⟨ht₁, rfl⟩, ⟨ht₂, rfl⟩⟩
      · cases h0
    · cases h0
  · cases h0

variable (h : Tables r L A) (hroot : L root = some (o, [])) (hl : Leads r root va l1 l2 l3)

include h hroot hl

theorem Leads.labels : L l1 = some (o, [l0Idx va]) ∧ L l2 = some (o, [l1Idx va, l0Idx va]) ∧
    L l3 = some (o, pathDown 3 va) := by
  have h1 := h.below hroot (by decide) hl.top.1
  rw [hl.top.2] at h1
  have h2 := h.below h1 (by simp) hl.mid.1
  rw [hl.mid.2] at h2
  have h3 := h.below h2 (by simp) hl.low.1
  rw [hl.low.2] at h3
  exact ⟨h1, h2, h3⟩

/-- Writing to the level-3 table leaves the way there as it is. -/
theorem Leads.write (i : Idx) (v : Nat) : Leads (r.setEntry l3 i v) root va l1 l2 l3 := by
  obtain ⟨h1, h2, h3⟩ := hl.labels h hroot
  have hsame : ∀ {x : Nat} {path : List Idx}, L x = some (o, path) → path.length < 3 →
      (r.setEntry l3 i v).mem x = r.mem x := by
    intro x path hx hlt
    refine Ram.setEntry_mem_ne _ _ ?_
    rintro rfl
    rw [h3] at hx
    cases hx
    exact absurd hlt (by simp [pathDown])
  refine ⟨?_, ?_, ?_⟩
  · rw [hsame hroot (by decide)]
    exact hl.top
  · rw [hsame h1 (by simp)]
    exact hl.mid
  · rw [hsame h2 (by simp)]
    exact hl.low

/-- The walk to a page ends at the descriptor written for it. -/
theorem Leads.write_walk (v : Nat) : (r.setEntry l3 (l3Idx va) v).walkEnd 3 root va = (0, v) := by
  rw [(hl.write h hroot (l3Idx va) v).walkEnd, Ram.setEntry_mem, if_pos ⟨rfl, rfl⟩]

end Leads

/-- `write_user_page` follows the walk. -/
theorem Leads.writeUserPage {root l1 l2 l3 : Nat} (hl : Leads r root va l1 l2 l3) (v : Nat) :
    r.writeUserPage root va v = r.setEntry l3 (l3Idx va) v := by
  obtain ⟨⟨-, rfl⟩, ⟨-, rfl⟩, ⟨-, rfl⟩⟩ := hl
  rfl

/-! ## The kernel's own walks -/

section Kernel

variable {root : Nat} (h : Tables r L A) (hroot : L root = some (o, []))

include h hroot

/-- Levels 0 and 1 hold table descriptors or nothing. -/
theorem Tables.upper_root : isValid (r.mem root i) = isTable (r.mem root i) := by
  cases hv : isValid (r.mem root i) with
  | true => exact (h.upper root o [] i hroot (by decide) hv).symm
  | false =>
    rw [isTable, hv]
    rfl

theorem Tables.upper_next (ht : isTable (r.mem root i) = true) :
    isValid (r.mem (addrOf (r.mem root i)) j) = isTable (r.mem (addrOf (r.mem root i)) j) := by
  have hl1 := h.below hroot (by decide) ht
  cases hv : isValid (r.mem (addrOf (r.mem root i)) j) with
  | true => exact (h.upper _ o [i] j hl1 (by simp) hv).symm
  | false =>
    rw [isTable, hv]
    rfl

theorem readUserPage_eq : r.readUserPage root va =
    if (r.walkEnd 3 root va).1 = 0 then (r.walkEnd 3 root va).2 else 0 := by
  rw [walkEnd_root, Ram.readUserPage]
  simp only [h.upper_root hroot]
  cases ht : isTable (r.mem root (l0Idx va)) with
  | false => rfl
  | true =>
    rw [h.upper_next hroot ht]
    cases ht₁ : isTable (r.mem (addrOf (r.mem root (l0Idx va))) (l1Idx va)) with
    | false => rfl
    | true =>
      cases isTable (r.mem (addrOf (r.mem (addrOf (r.mem root (l0Idx va))) (l1Idx va))) (l2Idx va))
      · rfl
      · rfl

/-- A block at level 2 is where the walk ends. -/
theorem walkEnd_of_block (hb : isBlock (r.level2 root va) = true) :
    r.walkEnd 3 root va = (1, r.level2 root va) := by
  have hno : isTable (r.level2 root va) = false := by
    cases ht : isTable (r.level2 root va) with
    | false => rfl
    | true =>
      rw [isBlock_false_of_isTable ht] at hb
      cases hb
  revert hb hno
  rw [walkEnd_root, Ram.level2, h.upper_root hroot]
  cases ht : isTable (r.mem root (l0Idx va)) with
  | false => exact fun hb => absurd (show isBlock 0 = true from hb) (by decide)
  | true =>
    rw [h.upper_next hroot ht]
    cases ht₁ : isTable (r.mem (addrOf (r.mem root (l0Idx va))) (l1Idx va)) with
    | false => exact fun hb => absurd (show isBlock 0 = true from hb) (by decide)
    | true =>
      intro _ hno
      rw [if_pos rfl, if_pos rfl] at hno ⊢
      rw [if_pos rfl, if_pos rfl, hno]
      rfl

end Kernel

/-! ## `map_user_frame` -/

/-- The walk for the page ends at the new descriptor, all others as they did. -/
theorem mapUserFrame_walk (h : Tables r L A) {root pa flags : Nat} (hroot : L root = some (o, []))
    (hb : isBlock (r.level2 root va) = false) (hr : r.mapUserFrame root va pa flags = .ok r') :
    r'.walkEnd 3 root va = (0, pa ||| flags) ∧
      ∀ {o' root' va' : Nat}, L root' = some (o', []) → ¬ (o' = o ∧ SameSlot va va') →
        WalkKept (r.walkEnd 3 root' va') (r'.walkEnd 3 root' va') := by
  unfold Ram.mapUserFrame at hr
  split at hr
  · cases hr
  · obtain ⟨⟨r₁, l1⟩, hr₁, hr⟩ := bind_eq_ok.mp hr
    obtain ⟨⟨r₂, l2⟩, hr₂, hr⟩ := bind_eq_ok.mp hr
    obtain ⟨⟨r₃, l3⟩, hr₃, hr⟩ := bind_eq_ok.mp hr
    cases hr
    obtain ⟨L₁, hg₁, hl1⟩ := ensureTable_grows h hroot (by decide) (fun hc => by cases hc) hr₁
    obtain ⟨L₂, hg₂, hl2⟩ :=
      ensureTable_grows hg₁.tables hl1 (by simp) (fun hc => by simp at hc) hr₂
    obtain ⟨-, -, -, hentry⟩ := upper_grows h hroot hr₁ hr₂
    have hnb : isBlock (r₂.mem l2 (l2Idx va)) = false := by rw [hentry]; exact hb
    obtain ⟨L₃, hg₃, hl3⟩ := ensureTable_grows hg₂.tables hl2 (by simp) (fun _ => hnb) hr₃
    have hroot₁ := hg₁.keeps _ _ hroot
    have hroot₂ := hg₂.keeps _ _ hroot₁
    have hroot₃ := hg₃.keeps _ _ hroot₂
    have hl1₂ := hg₂.keeps _ _ hl1
    refine ⟨?_, fun {o' root' va'} hroot' hother => ?_⟩
    · -- the three tables are linked, and stay so
      obtain ⟨ht₁, he₁⟩ := ensureTable_entry h hroot (by decide) (fun hc => by cases hc) hr₁
      obtain ⟨ht₂, he₂⟩ := ensureTable_entry hg₁.tables hl1 (by simp) (fun hc => by simp at hc) hr₂
      obtain ⟨ht₃, he₃⟩ := ensureTable_entry hg₂.tables hl2 (by simp) (fun _ => hnb) hr₃
      have hk₁ := ensureTable_keeps hg₁.tables hl1 hr₂ hroot₁ ht₁
      have hk₁' := ensureTable_keeps hg₂.tables hl2 hr₃ hroot₂ (by rw [hk₁]; exact ht₁)
      have hk₂ := ensureTable_keeps hg₂.tables hl2 hr₃ hl1₂ ht₂
      have hl : Leads r₃ root va l1 l2 l3 := by
        refine ⟨?_, ?_, ht₃, he₃⟩
        · rw [hk₁', hk₁]
          exact ⟨ht₁, he₁⟩
        · rw [hk₂]
          exact ⟨ht₂, he₂⟩
      exact hl.write_walk hg₃.tables hroot₃ _
    · have hw₁ := ensureTable_walk h hroot (by decide) hr₁ hroot' va'
      have hroot'₁ := hg₁.keeps _ _ hroot'
      have hw₂ := ensureTable_walk hg₁.tables hl1 (by simp) hr₂ hroot'₁ va'
      have hroot'₂ := hg₂.keeps _ _ hroot'₁
      have hw₃ := ensureTable_walk hg₂.tables hl2 (by simp) hr₃ hroot'₂ va'
      have hroot'₃ := hg₃.keeps _ _ hroot'₂
      refine (hw₁.trans hw₂).trans (hw₃.trans (Or.inl ?_))
      exact write_walk hg₃.tables hl3 _ hroot'₃ hother

end Tanix
