/-
# `Tanix.Mem.Tables` — the translation tables are a forest

Every table of the kernel and of the tasks belongs to one tree and stands in one place of
it: its label is the root of the tree and the indices on the way down.  `Tables r L A`
says that the memory `r` has the tables that the labelling `L` names:

    closed   a table descriptor in a labelled table leads to the label one level down
    upper    levels 0 and 1 hold table descriptors only
    blocks   blocks (level 2) are not for EL0
    leaf     a page of a level-3 table that is open to EL0 is one that `A` allows the owner
    used     no labelled frame is free

`Grows o A r L r' L'` is what the mapping helpers do for the tree of `o`: they take frames,
hang new tables in, and write to nobody else's tables.  It is reflexive and transitive, so
each helper is the sequence of its steps.
-/
import Tanix.Lib.Forest
import Tanix.Mem.Taken

namespace Tanix

open Forest

abbrev Labels := Forest.Labels Nat Idx Nat

variable {q : Nat}

namespace Ram

/-- The table that an entry leads to, `d` levels below the root. -/
def child (r : Ram) (d p : Nat) (i : Idx) : Option Nat :=
  if d < 3 ∧ isTable (r.mem p i) = true then some (addrOf (r.mem p i)) else none

/-- The page is a frame that the allocator may hand out. -/
def IsFree (r : Ram) (p : Nat) : Prop :=
  ∃ i, r.frames.free i = true ∧ p = r.frames.ramStart + i * pageSize

theorem child_some {r : Ram} {d p : Nat} {i : Idx} :
    r.child d p i = some q ↔ d < 3 ∧ isTable (r.mem p i) = true ∧ q = addrOf (r.mem p i) := by
  unfold child
  split
  · rename_i h
    simp only [Option.some.injEq, h, true_and]
    exact eq_comm
  · rename_i h
    simp only [reduceCtorEq, false_iff]
    rintro ⟨h1, h2, -⟩
    exact h ⟨h1, h2⟩

section Memory

variable (r : Ram) (p : Nat)

theorem setEntry_mem (i : Idx) (v q : Nat) (j : Idx) :
    (r.setEntry p i v).mem q j = if q = p ∧ j = i then v else r.mem q j := by
  unfold setEntry
  rcases eq_or_ne q p with rfl | hq
  · rcases eq_or_ne j i with rfl | hj
    · simp
    · simp [hj]
  · simp [hq]

theorem setEntry_mem_ne {i : Idx} {v : Nat} (h : q ≠ p) : (r.setEntry p i v).mem q = r.mem q :=
  Function.update_of_ne h _ _

theorem setPage_mem_same (w : Idx → Nat) : (r.setPage p w).mem p = w :=
  Function.update_self ..

theorem setPage_mem_ne {w : Idx → Nat} (h : q ≠ p) : (r.setPage p w).mem q = r.mem q :=
  Function.update_of_ne h _ _

end Memory

end Ram

/-- The RAM window: page-aligned, and within reach of a descriptor. -/
structure Window (a : FrameAllocator) : Prop where
  aligned : a.ramStart % pageSize = 0
  bound : a.ramStart + a.totalFrames * pageSize ≤ 2 ^ 48

theorem Window.same {a a' : FrameAllocator} (h : Window a) (hs : FrameAllocator.SameWindow a a') :
    Window a' := by
  refine ⟨?_, ?_⟩
  · rw [hs.start]
    exact h.aligned
  · rw [hs.start, hs.total]
    exact h.bound

structure Tables (r : Ram) (L : Labels) (A : Nat → Nat → Prop) : Prop where
  window : Window r.frames
  closed : Closed r.child L
  used : ∀ p l, L p = some l → ¬ r.IsFree p
  page : ∀ p l, L p = some l → IsPage p
  depth : ∀ p o path, L p = some (o, path) → path.length ≤ 3
  upper : ∀ p o path i, L p = some (o, path) → path.length < 2 → isValid (r.mem p i) = true →
    isTable (r.mem p i) = true
  blocks : ∀ p o path i, L p = some (o, path) → path.length = 2 → isBlock (r.mem p i) = true →
    el0Access (r.mem p i) = false
  leaf : ∀ p o path i, L p = some (o, path) → path.length = 3 → isValid (r.mem p i) = true →
    el0Access (r.mem p i) = true → A o (addrOf (r.mem p i))

/-- What `Tables` says of one entry, `d` levels below the root. -/
structure Entry (A : Nat → Nat → Prop) (o d e : Nat) : Prop where
  upper : d < 2 → isValid e = true → isTable e = true
  block : d = 2 → isBlock e = true → el0Access e = false
  leaf : d = 3 → isValid e = true → el0Access e = true → A o (addrOf e)

section Entry

variable {A : Nat → Nat → Prop} {o d e : Nat} {r : Ram} {L : Labels}

theorem Entry.invalid (h : isValid e = false) : Entry A o d e := by
  refine ⟨fun _ hv => ?_, fun _ hb => ?_, fun _ hv => ?_⟩
  · exact absurd (h.symm.trans hv) Bool.false_ne_true
  · rw [isBlock, h] at hb
    cases hb
  · exact absurd (h.symm.trans hv) Bool.false_ne_true

theorem Entry.table (h : isTable e = true) (hd : d < 3) : Entry A o d e := by
  refine ⟨fun _ _ => h, fun _ hb => ?_, fun h3 => absurd h3 (Nat.ne_of_lt hd)⟩
  rw [isBlock_false_of_isTable h] at hb
  cases hb

theorem Tables.entry (h : Tables r L A) {p : Nat} {path : List Idx} (hp : L p = some (o, path)) (i : Idx) :
    Entry A o path.length (r.mem p i) :=
  ⟨h.upper p o path i hp, h.blocks p o path i hp, h.leaf p o path i hp⟩

theorem Tables.of_entries (hw : Window r.frames) (hclosed : Closed r.child L)
    (hlabel : ∀ p o path, L p = some (o, path) → ¬ r.IsFree p ∧ IsPage p ∧ path.length ≤ 3)
    (hentry : ∀ p o path i, L p = some (o, path) → Entry A o path.length (r.mem p i)) : Tables r L A where
  window := hw
  closed := hclosed
  used p l hl := (hlabel p l.1 l.2 hl).1
  page p l hl := (hlabel p l.1 l.2 hl).2.1
  depth p o path hl := (hlabel p o path hl).2.2
  upper p o path i hl := (hentry p o path i hl).upper
  blocks p o path i hl := (hentry p o path i hl).block
  leaf p o path i hl := (hentry p o path i hl).leaf

end Entry

/-- Roots with nothing in them. -/
def bareRoots (roots : List Nat) : Labels :=
  fun p => if p ∈ roots then some (p, []) else none

theorem bareRoots_some {roots : List Nat} {p : Nat} {l : Nat × List Idx}
    (h : bareRoots roots p = some l) : p ∈ roots ∧ l = (p, []) := by
  obtain ⟨hp, he⟩ := Option.ite_none_right_eq_some.mp h
  exact ⟨hp, (Option.some.inj he).symm⟩

theorem Tables.bare {r : Ram} {A : Nat → Nat → Prop} (roots : List Nat) (hw : Window r.frames)
    (hused : ∀ p ∈ roots, ¬ r.IsFree p) (hpage : ∀ p ∈ roots, IsPage p)
    (hempty : ∀ p ∈ roots, ∀ i, r.mem p i = 0) : Tables r (bareRoots roots) A := by
  have hinv : ∀ {p l}, bareRoots roots p = some l → ∀ i, isValid (r.mem p i) = false := by
    intro p l hl i
    rw [hempty p (bareRoots_some hl).1 i]
    rfl
  refine .of_entries hw ?_ (fun p o path hl => ?_) fun p o path i hl => .invalid (hinv hl i)
  · intro p o path i q hp hq
    have ht := (Ram.child_some.mp hq).2.1
    rw [isTable, hinv hp i] at ht
    cases ht
  · obtain ⟨hmem, he⟩ := bareRoots_some hl
    cases he
    exact ⟨hused p hmem, hpage p hmem, Nat.zero_le 3⟩

/-- What a helper that works for the tree of `o` does. -/
structure Grows (o : Nat) (A : Nat → Nat → Prop) (r : Ram) (L : Labels) (r' : Ram) (L' : Labels) :
    Prop where
  taken : Taken r r'
  tables : Tables r' L' A
  keeps : ∀ p l, L p = some l → L' p = some l
  fresh : ∀ p l, L' p = some l → L p = some l ∨ (l.1 = o ∧ r.IsFree p)
  mem : ∀ p, r'.mem p ≠ r.mem p → r.IsFree p ∨ ∃ path, L p = some (o, path)

section Grows

variable {o : Nat} {A : Nat → Nat → Prop} {r r' r'' : Ram} {L L' L'' : Labels}

variable {p : Nat}

theorem Taken.isFree (h : Taken r r') (hp : r'.IsFree p) : r.IsFree p := by
  obtain ⟨i, hi, rfl⟩ := hp
  exact ⟨i, h.bits i hi, by rw [h.window.start]⟩

theorem Grows.refl (h : Tables r L A) : Grows o A r L r L :=
  ⟨.refl r, h, fun _ _ => id, fun _ _ => Or.inl, fun _ hne => absurd rfl hne⟩

theorem Grows.trans (h : Grows o A r L r' L') (h' : Grows o A r' L' r'' L'') :
    Grows o A r L r'' L'' := by
  refine ⟨h.taken.trans h'.taken, h'.tables, fun p l hl => h'.keeps p l (h.keeps p l hl), ?_, ?_⟩
  · intro p l hl
    rcases h'.fresh p l hl with hl | ⟨ho, hfree⟩
    · exact h.fresh p l hl
    · exact Or.inr ⟨ho, h.taken.isFree hfree⟩
  · intro p hne
    rcases eq_or_ne (r'.mem p) (r.mem p) with he | hne'
    · rw [← he] at hne
      rcases h'.mem p hne with hfree | ⟨path, hpath⟩
      · exact Or.inl (h.taken.isFree hfree)
      · rcases h.fresh p _ hpath with hold | ⟨-, hfree⟩
        · exact Or.inr ⟨path, hold⟩
        · exact Or.inl hfree
    · exact h.mem p hne'

/-! ## Taking a frame -/

/-- One frame has been taken; the memory is as it was. -/
structure TakesFrame (r r' : Ram) (p : Nat) : Prop where
  taken : Taken r r'
  mem : r'.mem = r.mem
  free : r.IsFree p
  used : ¬ r'.IsFree p
  page : IsPage p

theorem allocFrame_takes (hw : Window r.frames) (h : r.allocFrame = some (r', p)) :
    TakesFrame r r' p := by
  have ht := Ram.taken_allocFrame h
  unfold Ram.allocFrame at h
  obtain ⟨⟨a, q⟩, ha, he⟩ := Option.map_eq_some_iff.mp h
  cases he
  obtain ⟨i, hlt, hfree, rfl, rfl⟩ := FrameAllocator.alloc_some ha
  refine ⟨ht, rfl, ⟨i, hfree, rfl⟩, ?_, ?_⟩
  · rintro ⟨j, hj, he⟩
    rw [ht.window.start] at he
    have hij : j = i := by
      simp only [pageSize] at he
      omega
    rw [hij, FrameAllocator.setUsed_free] at hj
    simp at hj
  · have hal := hw.aligned
    have hb := hw.bound
    refine ⟨?_, ?_⟩ <;> simp only [pageSize] at hal hb ⊢ <;> omega

/-- The tables do not mind who else takes a frame. -/
theorem Tables.retake (h : Tables r L A) (ht : Taken r r') (hmem : r'.mem = r.mem) :
    Tables r' L A := by
  have hchild : r'.child = r.child := by
    unfold Ram.child
    rw [hmem]
  refine .of_entries (h.window.same ht.window) (hchild ▸ h.closed) (fun p o path hl => ?_) fun p o path i hl => ?_
  · exact ⟨fun hf => h.used p _ hl (ht.isFree hf), h.page p _ hl, h.depth p o path hl⟩
  · rw [hmem]
    exact h.entry hl i

/-! ## Hanging a table in, and writing a page descriptor -/

/-- The tree that is one node. -/
def single (q : Nat) : Nat → Option (List Idx) :=
  fun x => if x = q then some [] else none

theorem single_some {x : Nat} {rel : List Idx} (h : single q x = some rel) : x = q ∧ rel = [] := by
  unfold single at h
  split at h
  · cases h
    exact ⟨‹_›, rfl⟩
  · cases h

theorem single_self (q : Nat) : single q q = some [] :=
  if_pos rfl

/-- A free frame has no label. -/
theorem Tables.unlabelled (h : Tables r L A) (hq : r.IsFree q) : L q = none := by
  cases hL : L q with
  | none => rfl
  | some l => exact absurd hq (h.used q l hL)

/-- A new table at an entry that leads to none.  Above level 3 it is empty; at level 3 its pages are
allowed. -/
theorem Tables.hang (h : Tables r L A) {r₁ : Ram} {path : List Idx} {i : Idx}
    (hq : TakesFrame r r₁ q) (hp : L p = some (o, path)) (hd : path.length < 3)
    (hentry : isTable (r.mem p i) = false) {w : Idx → Nat}
    (hempty : path.length + 1 < 3 → ∀ j, isValid (w j) = false)
    (hleaf : ∀ j, isValid (w j) = true → el0Access (w j) = true → A o (addrOf (w j))) :
    Grows o A r L ((r₁.setPage q w).setEntry p i (q ||| descValid ||| descTable))
      (graft L (single q) o (i :: path)) := by
  have hLq := h.unlabelled hq.free
  have hpq : p ≠ q := by
    rintro rfl
    rw [hLq] at hp
    cases hp
  -- the memory afterwards, in a labelled table and in the new one
  have hmem : ∀ x j, x ≠ q → ((r₁.setPage q w).setEntry p i (q ||| descValid ||| descTable)).mem x j
      = if x = p ∧ j = i then q ||| descValid ||| descTable else r.mem x j := by
    intro x j hx
    rw [Ram.setEntry_mem, Ram.setPage_mem_ne _ _ hx, hq.mem]
  have hmemq : ((r₁.setPage q w).setEntry p i (q ||| descValid ||| descTable)).mem q = w := by
    rw [Ram.setEntry_mem_ne _ _ (Ne.symm hpq), Ram.setPage_mem_same]
  have hold : ∀ x l, L x = some l → x ≠ q := by
    rintro x l hl rfl
    rw [hLq] at hl
    cases hl
  have htaken : Taken r ((r₁.setPage q w).setEntry p i (q ||| descValid ||| descTable)) :=
    hq.taken.trans (.of_frames rfl)
  have hused : ¬ ((r₁.setPage q w).setEntry p i (q ||| descValid ||| descTable)).IsFree q := hq.used
  generalize (r₁.setPage q w).setEntry p i (q ||| descValid ||| descTable) = r' at *
  have hcases : ∀ x o' path', graft L (single q) o (i :: path) x = some (o', path') →
      (x = q ∧ o' = o ∧ path' = i :: path) ∨ (x ≠ q ∧ L x = some (o', path')) := by
    intro x o' path' hx
    rcases graft_some hx with ⟨rel, hrel, he⟩ | ⟨-, hL⟩
    · obtain ⟨rfl, rfl⟩ := single_some hrel
      cases he
      exact Or.inl ⟨rfl, rfl, rfl⟩
    · exact Or.inr ⟨hold x _ hL, hL⟩
  refine ⟨htaken, .of_entries (h.window.same htaken.window) ?_ ?_ ?_, ?_, ?_, ?_⟩
  · -- closed
    refine h.closed.graft ?_ ?_ ?_
    · intro x rel hx
      rw [(single_some hx).1]
      exact hLq
    · intro x o' path' j y hx hy
      obtain ⟨hlt, htable, rfl⟩ := Ram.child_some.mp hy
      rw [hmem x j (hold x _ hx)] at htable ⊢
      split at htable
      · rename_i hxj
        obtain ⟨rfl, rfl⟩ := hxj
        rw [hp] at hx
        cases hx
        rw [if_pos ⟨rfl, rfl⟩, addrOf_tableDesc hq.page]
        exact Or.inr ⟨rfl, rfl, single_self q⟩
      · rename_i hxj
        rw [if_neg hxj]
        exact Or.inl (Ram.child_some.mpr ⟨hlt, htable, rfl⟩)
    · intro x rel j y hx hy
      obtain ⟨rfl, rfl⟩ := single_some hx
      obtain ⟨hlt, htable, -⟩ := Ram.child_some.mp hy
      rw [List.length_nil, Nat.zero_add, List.length_cons] at hlt
      rw [hmemq, isTable, hempty hlt j] at htable
      cases htable
  · intro x o' path' hx
    rcases hcases x o' path' hx with ⟨rfl, -, rfl⟩ | ⟨-, hL⟩
    · exact ⟨hused, hq.page, hd⟩
    · exact ⟨fun hf => h.used x _ hL (htaken.isFree hf), h.page x _ hL, h.depth x o' path' hL⟩
  · intro x o' path' j hx
    rcases hcases x o' path' hx with ⟨rfl, rfl, rfl⟩ | ⟨hne, hL⟩
    · rw [hmemq, List.length_cons]
      rcases Nat.lt_or_ge (path.length + 1) 3 with hlt | hge
      · exact .invalid (hempty hlt j)
      · exact ⟨fun _ => by omega, fun _ => by omega, fun _ => hleaf j⟩
    · rw [hmem x j hne]
      split
      · rename_i hxj
        rw [hxj.1, hp] at hL
        cases hL
        exact .table (isTable_tableDesc hq.page) hd
      · exact h.entry hL j
  · intro x l hx
    rw [graft_old (show single q x = none from if_neg (hold x l hx))]
    exact hx
  · intro x l hx
    rcases hcases x l.1 l.2 hx with ⟨rfl, ho, -⟩ | ⟨-, hL⟩
    · exact Or.inr ⟨ho, hq.free⟩
    · exact Or.inl hL
  · intro x hne
    rcases eq_or_ne x q with rfl | hxq
    · exact Or.inl hq.free
    · refine Or.inr ⟨path, ?_⟩
      have hxp : x = p := by
        by_contra hxp
        refine hne (funext fun j => ?_)
        rw [hmem x j hxq, if_neg fun hc => hxp hc.1]
      rw [hxp]
      exact hp

/-- Writing a page descriptor that the owner is allowed. -/
theorem Tables.write (h : Tables r L A) {path : List Idx} (hp : L p = some (o, path))
    (hd : path.length = 3) (i : Idx) {v : Nat}
    (hv : isValid v = true → el0Access v = true → A o (addrOf v)) :
    Grows o A r L (r.setEntry p i v) L := by
  -- only a level-3 table changes, so no pointer does
  have hmem : ∀ x o' path' j, L x = some (o', path') → path'.length < 3 →
      (r.setEntry p i v).mem x j = r.mem x j := by
    intro x o' path' j hx hlt
    rw [Ram.setEntry_mem, if_neg]
    rintro ⟨rfl, -⟩
    rw [hp] at hx
    cases hx
    omega
  have htaken : Taken r (r.setEntry p i v) := .of_frames rfl
  refine ⟨htaken, .of_entries h.window ?_ (fun x o' path' hx => ?_) fun x o' path' j hx => ?_, fun _ _ => id,
    fun _ _ => Or.inl, ?_⟩
  · refine h.closed.congr fun x o' path' j hx => ?_
    unfold Ram.child
    rcases Nat.lt_or_ge path'.length 3 with hlt | hge
    · rw [hmem x o' path' j hx hlt]
    · rw [if_neg fun hc => absurd hc.1 (Nat.not_lt.mpr hge),
        if_neg fun hc => absurd hc.1 (Nat.not_lt.mpr hge)]
  · exact ⟨h.used x _ hx, h.page x _ hx, h.depth x o' path' hx⟩
  · rw [Ram.setEntry_mem]
    split
    · rename_i hxj
      rw [hxj.1, hp] at hx
      cases hx
      exact ⟨fun _ => by omega, fun _ => by omega, fun _ => hv⟩
    · exact h.entry hx j
  · intro x hne
    refine Or.inr ⟨path, ?_⟩
    have hxp : x = p := by
      by_contra hxp
      exact hne (Ram.setEntry_mem_ne r p hxp)
    rw [hxp]
    exact hp

end Grows

end Tanix
