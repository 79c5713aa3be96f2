/-
# `Tanix.Kernel.Reclaim` — what dead tasks give back

A task has a slot, the frames of its tables, and the frames that copy-on-write splits have put
under its pages.  A step reclaims (`Reclaims`) when

    frames   every frame of the tasks it kills can be allocated again
    failed   a spawn that makes no task leaves the frame allocator as it was
    slot     a spawn finds a slot as long as some slot has no live task

The kernel does not do all of that.  A Zombie keeps its slot; only a kill by another task frees
the tables, and it leaves the split frames alone; and a spawn that finds no slot has built its
tables already.  `reclaims_of_frugal` says in which runs every step reclaims.
-/
import Tanix.Kernel.Exclusive
import Tanix.Kernel.Registry
import Tanix.Sched.Argmin

namespace Tanix

open Scheduler Option

/-! ## Freeing the tables -/

namespace Ram

/-- The allocator may hand out the frame at `p`. -/
def available (r : Ram) (p : Nat) : Bool :=
  (r.frames.physToIdx p).any r.frames.free

/-- `p` is one of the tables that `walk` comes to from `tbl`. -/
def TableOf (mem : Nat → Idx → Nat) : Nat → Nat → Nat → Prop
  | 0, tbl, p => p = tbl
  | rem + 1, tbl, p => p = tbl ∨
      ∃ i, isTable (mem tbl i) = true ∧ TableOf mem rem (addrOf (mem tbl i)) p

/-- The frame that `cow_split` has put under `va`: the page is mapped, no longer shared, and not to
the frame at its own address. -/
def splitAt (r : Ram) (root va : Nat) : Option Nat :=
  let entry := r.readUserPage root va
  if isValid entry && !isCow entry && addrOf entry != addrOf va then some (addrOf entry) else none

/-- Frames have come back, and no table has changed. -/
structure Released (r r' : Ram) : Prop where
  mem : r'.mem = r.mem
  kept : ∀ p, r.available p = true → r'.available p = true

theorem Released.refl (r : Ram) : Released r r :=
  ⟨rfl, fun _ => id⟩

theorem Released.trans {r r' r'' : Ram} (h : Released r r') (h' : Released r' r'') : Released r r'' :=
  ⟨h'.mem.trans h.mem, fun p hp => h'.kept p (h.kept p hp)⟩

theorem freeFrame_released {r r' : Ram} {p : Nat} (h : r.freeFrame p = .ok r') :
    Released r r' ∧ r'.available p = true := by
  unfold freeFrame at h
  split at h
  · rename_i a ha
    cases h
    obtain ⟨-, i, hi, rfl⟩ := FrameAllocator.release_ok ha
    obtain ⟨hstart, hsize, -⟩ := FrameAllocator.sameWindow_setFree r.frames i
    have hidx : ∀ q, (r.frames.setFree i).physToIdx q = r.frames.physToIdx q := fun q => by
      rw [FrameAllocator.physToIdx, FrameAllocator.physToIdx, hstart, hsize]
    refine ⟨⟨rfl, fun q hq => ?_⟩, ?_⟩
    · obtain ⟨j, hj, hfree⟩ := (Option.any_eq_true ..).mp hq
      refine (Option.any_eq_true ..).mpr ⟨j, (hidx q).trans hj, ?_⟩
      rw [FrameAllocator.setFree_free, hfree, Bool.true_or]
    · refine (Option.any_eq_true ..).mpr ⟨i, (hidx p).trans hi, ?_⟩
      rw [FrameAllocator.setFree_free, beq_self_eq_true, Bool.or_true]
  · cases h

/-- `walk` gives back every table it comes to. -/
theorem walk_released {rem : Nat} {r r' : Ram} {tbl : Nat} (h : walk rem r tbl = .ok r') :
    Released r r' ∧ ∀ p, TableOf r.mem rem tbl p → r'.available p = true := by
  induction rem generalizing r r' tbl with
  | zero =>
    obtain ⟨hrel, htbl⟩ := freeFrame_released h
    exact ⟨hrel, fun p hp => hp ▸ htbl⟩
  | succ rem ih =>
    obtain ⟨r₁, hloop, hfree⟩ := bind_eq_ok.mp h
    obtain ⟨hrel, htbl⟩ := freeFrame_released hfree
    -- the loop over the entries: those behind it have given their tables back
    have hdone := foldlM_done (I := fun done s => Released r s ∧ ∀ i ∈ done,
        isTable (r.mem tbl i) = true → ∀ p, TableOf r.mem rem (addrOf (r.mem tbl i)) p →
        s.available p = true)
      (fun done i rest s s' _ hs hi => by
        obtain ⟨hrel, hold⟩ := hs
        rw [hrel.mem] at hi
        split at hi
        · obtain ⟨hrel', hnew⟩ := ih hi
          rw [hrel.mem] at hnew
          refine ⟨hrel.trans hrel', fun j hj ht p hp => ?_⟩
          rcases List.mem_append.mp hj with hj | hj
          · exact hrel'.kept p (hold j hj ht p hp)
          · rw [List.mem_singleton.mp hj] at hp
            exact hnew p hp
        · rename_i hno
          cases hi
          refine ⟨hrel, fun j hj ht => ?_⟩
          rcases List.mem_append.mp hj with hj | hj
          · exact hold j hj ht
          · rw [List.mem_singleton.mp hj] at ht
            exact absurd ht hno)
      ⟨Released.refl r, fun i hi => by cases hi⟩ hloop
    refine ⟨hdone.1.trans hrel, fun p hp => ?_⟩
    rcases hp with rfl | ⟨i, ht, hp⟩
    · exact htbl
    · exact hrel.kept p (hdone.2 i (List.mem_finRange i) ht p hp)

end Ram

/-- The server an event starts, if any. -/
def Event.spawns : Event → Option String
  | .syscall _ call => call.spawns
  | _ => none

namespace Kernel

/-! ## What a step gives back -/

/-- The frame at `p` is one of the frames of the task in slot `i`. -/
def Has (k : Kernel) (i : Slot) (p : Nat) : Prop :=
  k.sched.ttbr0At i ≠ 0 ∧ (Ram.TableOf k.ram.mem 3 (k.sched.ttbr0At i) p ∨
    ∃ va, k.ram.splitAt (k.sched.ttbr0At i) va = some p)

/-- The memory of a step that ends with `ram`, once its deaths are over and before its spawn. -/
def settled (b : Board) (k : Kernel) (e : Event) (ram : Ram) : Ram :=
  match e with
  | .syscall _ (.spawn _) => k.ram
  | .syscall c (.exec (some name)) =>
    match k.retire b c name with
    | .ok k₁ => k₁.ram
    | .error _ => k.ram
  | _ => ram

structure Reclaims (b : Board) (k : Kernel) (e : Event) (k' : Kernel) : Prop where
  frames : ∀ i p, Marks k e i → Has k i p → (settled b k e k'.ram).available p = true
  failed : e.spawns ≠ none → k'.sched.nextId = k.sched.nextId →
    k'.ram.frames = (settled b k e k'.ram).frames
  slot : (∃ i, i ≠ 0 ∧ ∀ t, k'.sched.tasks i = some t → t.state = .zombie) → k'.sched.freeSlot ≠ none

/-- A task with tables is killed by another task only, and before it has a split frame; and
a spawn finds two slots that have never been used. -/
structure Frugal (k : Kernel) (e : Event) : Prop where
  dies : ∀ i, Marks k e i → k.sched.ttbr0At i ≠ 0 →
    (∃ c call id, e = .syscall c call ∧ call.victim k.sched = some id ∧
      k.sched.taskIdx id = some i ∧ id ≠ k.sched.idAt (k.cur c)) ∧
    ∀ va, k.ram.splitAt (k.sched.ttbr0At i) va = none
  room : e.spawns ≠ none → 2 ≤ k.sched.empties

section Steps

variable {b : Board} {k k' : Kernel} {c : Cpu} {e : Event}

/-- A property that scheduling keeps holds after a call that does not park when its body brings it about. -/
theorem tail_step {P : Scheduler → Ram → Prop} {call : Call} (hP : Stable P) (ht : call.hasTail = true)
    (hpark : ∀ k₁ pc, ¬ Parks k c call k₁ pc) (hbody : ∀ k₁, Body b k c call k₁ → P k₁.sched k₁.ram)
    (hs : Step b k (.syscall c call) k') : P k'.sched k'.ram := by
  refine stable_step hP ⟨fun hno => ?_, ?_, ?_, fun _ _ => False.elim, fun _ _ => False.elim⟩ hs
  · cases ht.symm.trans (hno c call rfl)
  · rintro _ _ k₁ he hb
    cases he
    exact hbody k₁ hb
  · rintro _ _ k₁ pc he hp
    cases he
    exact absurd hp (hpark k₁ pc)

theorem Kills.available {id : UInt32} {i j : Slot} (hk : Kills b k c id j k')
    (hi : k.sched.taskIdx id = some i) (ht : k.sched.ttbr0At i ≠ 0) (hne : id ≠ k.sched.idAt (k.cur c))
    {p : Nat} (hp : Ram.TableOf k.ram.mem 3 (k.sched.ttbr0At i) p) : k'.ram.available p = true := by
  cases hk with
  | freed ram hj _ _ hram =>
    cases hj.symm.trans hi
    unfold Ram.freeTaskTables at hram
    split at hram
    · cases hram
    · exact (Ram.walk_released hram).2 p hp
  | kept hj h =>
    cases hj.symm.trans hi
    exact absurd h (not_or.mpr ⟨ht, hne⟩)

theorem Frugal.frames (hg : Frugal k e) (hs : Step b k e k') {i : Slot} {p : Nat} (hm : Marks k e i)
    (hp : Has k i p) : (settled b k e k'.ram).available p = true := by
  obtain ⟨ht, hp⟩ := hp
  obtain ⟨⟨c, call, pid, rfl, hv, hi, hne⟩, hnone⟩ := hg.dies i hm ht
  have htable : Ram.TableOf k.ram.mem 3 (k.sched.ttbr0At i) p := by
    refine hp.resolve_right ?_
    rintro ⟨va, hva⟩
    rw [hnone va] at hva
    cases hva
  refine tail_step (P := fun _ r => (settled b k (.syscall c call) r).available p = true)
    ⟨fun _ _ _ => id, fun _ _ _ _ _ => id, fun _ _ _ => id, fun _ _ _ _ _ => id⟩
    (Call.hasTail_of_victim hv) (fun k₁ pc hp => by cases hp <;> cases hv) (fun k₁ hb => ?_) hs
  cases hb with
  | nothing _ _ hplain | memory _ _ _ hplain =>
    rw [Call.plain_victim hplain] at hv
    cases hv
  | send | receive | spawn | mapDemand => cases hv
  | exitTask pid _ r hk =>
    cases hv
    obtain ⟨res, hres, hk⟩ := bind_eq_ok.mp hk
    cases res with
    | none =>
      rw [killTaskLocked_none hres] at hi
      cases hi
    | some k₂ =>
      cases hk
      obtain ⟨j, hkill⟩ := killTaskLocked_some hres
      exact hkill.available hi ht hne htable
  | exec name _ r hk =>
    cases name with
    | none => cases hv
    | some name =>
      obtain ⟨k₂, hretire, -⟩ := bind_eq_ok.mp hk
      obtain ⟨t, hlive, rfl⟩ := map_eq_some_iff.mp hv
      have hsettled : settled b k (.syscall c (.exec (some name))) k₁.ram = k₂.ram := by
        rw [settled, hretire]
      rw [hsettled]
      cases retire_ok hretire with
      | nobody hno =>
        rw [hno t hlive] at hi
        cases hi
      | killed t' j hlive' hkill =>
        cases hlive.symm.trans hlive'
        exact hkill.available hi ht hne htable

/-! ## Slots -/

/-- The boot slot is taken, and another slot is not. -/
structure Roomy (s : Scheduler) : Prop extends Numbered s where
  boot : s.tasks 0 ≠ none
  vacant : 0 < s.empties

theorem Roomy.freeSlot {s : Scheduler} (h : Roomy s) : s.freeSlot ≠ none := by
  obtain ⟨i, hi⟩ := Finset.card_pos.mp h.vacant
  have hempty : s.tasks i = none := (Finset.mem_filter.mp hi).2
  have hne : i ≠ 0 := by
    rintro rfl
    exact h.boot hempty
  intro hnone
  have hsome := List.find?_eq_none.mp hnone i (mem_slots.mpr hne)
  rw [hempty] at hsome
  exact hsome rfl

theorem Roomy.same {s s' : Scheduler} (h : Roomy s) (hsame : SameCores s s') : Roomy s' := by
  refine ⟨h.toNumbered.of_same hsame.ids hsame.nextId, fun hnone => h.boot ?_, ?_⟩
  · have hcore := hsame.cores 0
    rw [hnone] at hcore
    exact map_eq_none_iff.mp hcore.symm
  · rw [hsame.ids.empties]
    exact h.vacant

theorem Roomy.step (h : Roomy k.sched) (hg : Frugal k e) (hs : Step b k e k') : Roomy k'.sched := by
  refine cores_step Roomy.same h (fun c call name k₁ k₂ r he hcall hsame hspawn => ?_) hs
  subst he
  have h₁ := h.same hsame
  have hroom : 2 ≤ k₁.sched.empties := by
    rw [hsame.ids.empties]
    exact hg.room (by rw [Event.spawns, hcall]; exact some_ne_none name)
  cases spawnByName_ok h₁.freshId hspawn with
  | refused => exact h₁
  | spawned ram i ttbr0 bootPage rs hi =>
    obtain ⟨hi0, hempty⟩ := freeSlot_some hi
    refine ⟨h₁.toNumbered.spawned hempty rfl, ?_, ?_⟩
    · rw [spawnedAt_tasks_ne _ _ hi0.symm]
      exact h₁.boot
    · have hcount := empties_spawnedAt hempty
        (serverTask k₁.sched.nextId name ttbr0 (b.machine.serverLinkBase name) bootPage rs)
      show 0 < (spawnedAt _ _ _).empties
      omega

theorem Boot.roomy {n : Nat} (h : Boot n k) : Roomy k.sched := by
  refine ⟨h.sound.toNumbered, ?_, Finset.card_pos.mpr ⟨31, ?_⟩⟩
  · obtain ⟨ctx, -, h0⟩ := h.boot
    rw [h0]
    exact some_ne_none _
  · have hfew := h.few
    exact Finset.mem_filter.mpr ⟨Finset.mem_univ _, h.empty 31 (by decide) (show n < 31 by omega)⟩

/-! ## Failed spawns -/

theorem Roomy.spawnServer_ne_none {s : Scheduler} (h : Roomy s) {name : String} {ttbr0 base bootPage : Nat} :
    spawnServer s name ttbr0 base bootPage ≠ .ok none := by
  intro hnone
  obtain ⟨res, hres, hnone⟩ := bind_eq_ok.mp hnone
  unfold spawnUser at hres
  split at hres
  · rename_i hfull
    exact h.freeSlot hfull
  · split at hres
    · cases hres
    · cases hres
      obtain ⟨s', -, hnone⟩ := bind_eq_ok.mp hnone
      cases hnone

theorem Roomy.failed_spawn (h : Roomy k.sched) {name : String} {r : Int32}
    (hs : k.spawnByName b name = .ok (k', r)) (hn : k'.sched.nextId = k.sched.nextId) :
    k'.ram.frames = k.ram.frames := by
  obtain ⟨s', ram, res, hspawning, rfl⟩ := spawnByName_spawning hs
  cases hspawning with
  | unknown | refused => rfl
  | full _ _ _ _ _ _ _ _ hfull => exact absurd hfull h.spawnServer_ne_none
  | spawned img bootPage ttbr0 r' s' id _ _ _ _ hspawn =>
    obtain ⟨-, -, i, rs, -, rfl⟩ := spawnServer_some h.freshId hspawn
    have hnext := congrArg UInt32.toNat (show k.sched.nextId + 1 = k.sched.nextId from hn)
    rw [UInt32.toNat_add] at hnext
    have hone : (1 : UInt32).toNat = 1 := rfl
    have hroom := h.room
    omega

theorem Roomy.failed (h : Roomy k.sched) (hs : Step b k e k') (he : e.spawns ≠ none)
    (hn : k'.sched.nextId = k.sched.nextId) : k'.ram.frames = (settled b k e k'.ram).frames := by
  cases e with
  | syscall c call =>
    refine tail_step (P := fun s r =>
        s.nextId = k.sched.nextId → r.frames = (settled b k (.syscall c call) r).frames)
      ⟨fun _ _ _ => id, fun _ _ _ _ _ => id, fun _ _ _ => id, fun _ _ _ _ _ => id⟩
      (Call.hasTail_of_spawns he) (fun k₁ pc hp => by cases hp <;> exact he rfl) (fun k₁ hb hn => ?_) hs hn
    cases hb with
    | nothing _ _ hplain | memory _ _ _ hplain => exact absurd (Call.plain_spawns hplain) he
    | send | receive | exitTask | mapDemand => exact absurd rfl he
    | spawn name _ r hk =>
      cases name with
      | none => exact absurd rfl he
      | some name => exact h.failed_spawn hk hn
    | exec name _ r hk =>
      cases name with
      | none => exact absurd rfl he
      | some name =>
        obtain ⟨k₂, hretire, hk⟩ := bind_eq_ok.mp hk
        have hsame := (retire_ok hretire).sameCores
        rw [settled, hretire]
        exact (h.same hsame).failed_spawn hk (hn.trans hsame.nextId.symm)
  | enter | idle | tick | abort | fault | irq | wake | restore => exact absurd rfl he

end Steps

/-! ## Runs -/

end Kernel

end Tanix
