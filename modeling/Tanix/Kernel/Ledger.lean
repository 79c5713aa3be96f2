/-
# `Tanix.Kernel.Ledger` — who holds which frame

The allocator knows only whether a frame is free.  A ledger beside the kernel records
what the code does not: the task that `alloc_frames` handed a frame to, until that task
frees it.  Every other frame that is not free is the kernel's: reserved at boot, or
taken for a table or a copied page.

    alloc_frames                  the frames become the caller's
    free_frames, by the holder    the frame is nobody's
    free_frames, by anybody else  the holder has not freed it: the ledger stays
    a frame taken in a step       the kernel's

`free_frames` looks at nothing but alignment and the RAM window, so whether a frame is
handed out while somebody holds it depends on what the callers free (`FreesOwn`).
-/
import Tanix.Kernel.Boot
import Tanix.Kernel.Stable
import Tanix.Mem.Taken

namespace Tanix

open FrameAllocator LTS

/-! ## Bits -/

namespace FrameAllocator

/-- The number of the frame at an address in the RAM window. -/
def frameNo (a : FrameAllocator) (addr : Nat) : Nat :=
  (addr - a.ramStart) / pageSize

/-- The frames of a run of pages. -/
def framesAt (a : FrameAllocator) (base pages : Nat) : List Nat :=
  (List.range pages).filterMap fun j => a.physToIdx (base + j * pageSize)

theorem SameWindow.physToIdx {a a' : FrameAllocator} (h : SameWindow a a') (addr : Nat) :
    a'.physToIdx addr = a.physToIdx addr := by
  rw [FrameAllocator.physToIdx, FrameAllocator.physToIdx, h.start, h.size]

end FrameAllocator

namespace Ram

variable {r r' : Ram}

/-- The frames that `alloc_frames(pages)` hands out. -/
def hands (r : Ram) (pages : Nat) : List Nat :=
  match r.allocFrames pages with
  | none => []
  | some (_, base) => List.range' (r.frames.frameNo base) pages

/-- What `alloc_frames` hands out was free, and is free no longer. -/
theorem allocFrames_hands {n base : Nat} (h : r.allocFrames n = some (r', base)) :
    (∀ i ∈ r.hands n, r.frames.free i = true) ∧ ∀ i ∈ r.hands n, r'.frames.free i = false := by
  have hhands : r.hands n = List.range' (r.frames.frameNo base) n := by
    rw [hands, h]
  unfold allocFrames at h
  obtain ⟨⟨a, q⟩, ha, he⟩ := Option.map_eq_some_iff.mp h
  cases he
  obtain ⟨s, -, -, hfree, rfl, rfl⟩ := allocContiguous_some ha
  have hno : r.frames.frameNo (r.frames.ramStart + s * pageSize) = s := by
    rw [frameNo, Nat.add_sub_cancel_left]
    exact Nat.mul_div_cancel s (by decide)
  rw [hhands, hno]
  constructor
  · intro i hi
    obtain ⟨hlo, hhi⟩ := List.mem_range'_1.mp hi
    exact hfree i hlo hhi
  · intro i hi
    obtain ⟨hlo, hhi⟩ := List.mem_range'_1.mp hi
    rw [setUsedRange_free]
    simp [hlo, hhi]

/-- The frames that `free_frames` turns free are those it names. -/
theorem sysFreeFrames_bits {ttbr0 : Nat} {base : UInt64} {pages : UInt32} {x : Int32}
    (h : r.sysFreeFrames ttbr0 base pages = .ok (r', x)) {i : Nat}
    (hi : r'.frames.free i = true) :
    r.frames.free i = true ∨ i ∈ r.frames.framesAt base.toNat pages.toNat := by
  obtain ⟨r₁, h₁, h⟩ := bind_eq_ok.mp h
  cases h
  -- between any two turns: the same window, and only named frames turned free
  refine (Except.Ensures.foldlM (R := fun s s' : Ram => SameWindow s.frames s'.frames ∧
    ∀ i, s'.frames.free i = true →
      s.frames.free i = true ∨ i ∈ s.frames.framesAt base.toNat pages.toNat) ?_ ?_ ?_ h₁).2 i hi
  · exact fun s => ⟨.refl _, fun _ => Or.inl⟩
  · rintro s s' s'' ⟨hw, hs⟩ ⟨hw', hs'⟩
    refine ⟨hw.trans hw', fun i hi => ?_⟩
    rcases hs' i hi with hi | hi
    · exact hs i hi
    · refine Or.inr ?_
      unfold framesAt at hi ⊢
      simpa only [hw.physToIdx] using hi
  · intro s j hj s' hs
    obtain ⟨pa, hpa, hs⟩ := bind_eq_ok.mp hs
    obtain ⟨-, rfl⟩ := checkedAdd_eq_ok.mp hpa
    obtain ⟨s₁, hs₁, hs⟩ := bind_eq_ok.mp hs
    have ht := taken_mapIfUser _ _ _ _ _ hs₁
    unfold freeFrame at hs
    split at hs
    · rename_i a ha
      cases hs
      obtain ⟨-, n, hn, rfl⟩ := release_ok ha
      refine ⟨ht.window.trans (sameWindow_setFree _ n), fun i hi => ?_⟩
      rw [setFree_free, Bool.or_eq_true, beq_iff_eq] at hi
      rcases hi with hi | rfl
      · exact Or.inl (ht.bits i hi)
      · rw [ht.window.physToIdx] at hn
        exact Or.inr (List.mem_filterMap.mpr ⟨j, hj, hn⟩)
    · cases hs

end Ram

/-! ## The ledger -/

inductive Holder where
  | kernel
  | task (id : UInt32)
  deriving DecidableEq

/-- Who holds the frame of each number; `none` is nobody. -/
abbrev Ledger := Nat → Option Holder

namespace Kernel

/-- The frames a call hands to its caller. -/
def hands (k : Kernel) : Call → List Nat
  | .allocFrames pages => k.ram.hands pages.toNat
  | _ => []

/-- The frames a call names to be freed. -/
def frees (k : Kernel) : Call → List Nat
  | .freeFrames base pages => k.ram.frames.framesAt base.toNat pages.toNat
  | _ => []

end Kernel

/-- At the start every frame that is not free is the kernel's. -/
def Ledger.start (k : Kernel) : Ledger :=
  fun i => if k.ram.frames.free i then none else some .kernel

/-- Frames that nobody holds and that are not free are the kernel's. -/
def Ledger.claim (L : Ledger) (k' : Kernel) : Ledger :=
  fun i => if L i = none ∧ k'.ram.frames.free i = false then some .kernel else L i

/-- The ledger after a call by the task `me`. -/
def Ledger.call (L : Ledger) (k : Kernel) (me : UInt32) (call : Call) : Ledger :=
  fun i =>
    if i ∈ k.hands call then some (.task me)
    else if i ∈ k.frees call ∧ L i = some (.task me) then none
    else L i

/-- The ledger after a step to `k'`. -/
def Ledger.after (L : Ledger) (k : Kernel) (e : Event) (k' : Kernel) : Ledger :=
  match e with
  | .syscall c call => (L.call k (k.sched.idAt (k.cur c)) call).claim k'
  | _ => L.claim k'

/-- The kernel with its ledger. -/
abbrev Booked := Kernel × Ledger

/-- The two calls that give table frames back. -/
def Event.freesTables : Event → Bool
  | .syscall _ (.exitTask _) | .syscall _ (.exec _) => true
  | _ => false

namespace Kernel

/-- A step of the kernel, booked. -/
def BookedStep (b : Board) (s : Booked) (e : Event) (s' : Booked) : Prop :=
  Step b s.1 e s'.1 ∧ s'.2 = s.2.after s.1 e s'.1

/-- A step other than `exit_task` and `exec`. -/
def KeepsTables (_ : Booked) (e : Event) : Prop :=
  e.freesTables = false

/-- What `free_frames` names, its caller holds. -/
def FreesOwn (s : Booked) : Event → Prop
  | .syscall c call => ∀ i ∈ s.1.frees call, s.2 i = some (.task (s.1.sched.idAt (s.1.cur c)))
  | _ => True

/-- What `alloc_frames` may hand out is held by nobody, task or kernel. -/
def HandsFree (s : Booked) : Prop :=
  ∀ pages, ∀ i ∈ s.1.ram.hands pages, s.2 i = none

/-- The bits agree with the ledger: what is held is not free. -/
def Agrees (s : Booked) : Prop :=
  ∀ i, s.1.ram.frames.free i = true → s.2 i = none

/-! ## Steps -/

/-- The calls and hands of an event. -/
def Turned (k : Kernel) (e : Event) (r : Ram) : Prop :=
  ∀ i, r.frames.free i = true →
    match e with
    | .syscall _ call => (k.ram.frames.free i = true ∨ i ∈ k.frees call) ∧ i ∉ k.hands call
    | _ => k.ram.frames.free i = true

section Steps

variable {b : Board} {k k' : Kernel} {e : Event}

/-- A step that only takes frames and is no `alloc_frames`. -/
theorem Turned.of_taken {r : Ram} (h : Taken k.ram r)
    (hands : ∀ c call, e = .syscall c call → k.hands call = []) : Turned k e r := by
  intro i hi
  have hold := h.bits i hi
  cases e with
  | syscall c call =>
    refine ⟨Or.inl hold, ?_⟩
    rw [hands c call rfl]
    exact List.not_mem_nil
  | enter | idle | tick | abort | fault | irq | wake | restore => exact hold

theorem turned_memory {c : Cpu} {call : Call} {r : Ram} {x : UInt64}
    (h : k.memoryCall b c call = some (.ok (r, x))) : Turned k (.syscall c call) r := by
  cases call with
  | allocFrames pages =>
    have h' := Option.some.inj h
    intro i hi
    refine ⟨Or.inl ((Ram.taken_sysAllocFrames _ _ _ h').bits i hi), fun hmem => ?_⟩
    change i ∈ k.ram.hands pages.toNat at hmem
    unfold Ram.sysAllocFrames at h'
    split at h'
    · rename_i hnone
      rw [Ram.hands, hnone] at hmem
      cases hmem
    · rename_i r₁ base hsome
      obtain ⟨r₂, hr₂, h'⟩ := bind_eq_ok.mp h'
      cases h'
      have hused := (Ram.allocFrames_hands hsome).2 i hmem
      rw [(Ram.taken_mapIfUser _ _ _ _ _ hr₂).bits i hi] at hused
      cases hused
  | freeFrames base pages =>
    obtain ⟨⟨r₁, y⟩, h₁, he⟩ := map_eq_ok (Option.some.inj h)
    cases he
    exact fun i hi => ⟨Ram.sysFreeFrames_bits h₁ hi, List.not_mem_nil⟩
  | shareFrames base pages task =>
    obtain ⟨⟨r₁, y⟩, h₁, he⟩ := map_eq_ok (Option.some.inj h)
    cases he
    exact .of_taken (Ram.taken_sysShareFrames _ _ _ _ h₁) fun _ _ he => by cases he; rfl
  | unshareFrames base pages task =>
    obtain ⟨⟨r₁, y⟩, h₁, he⟩ := map_eq_ok (Option.some.inj h)
    cases he
    exact .of_taken (Ram.taken_sysUnshareFrames _ _ _ _ h₁) fun _ _ he => by cases he; rfl
  | mapDevice phys pages =>
    obtain ⟨⟨r₁, y⟩, h₁, he⟩ := map_eq_ok (Option.some.inj h)
    cases he
    exact .of_taken (Ram.taken_sysMapDevice _ _ _ _ _ _ h₁) fun _ _ he => by cases he; rfl
  | mapCow phys pages task =>
    obtain ⟨⟨r₁, y⟩, h₁, he⟩ := map_eq_ok (Option.some.inj h)
    cases he
    exact .of_taken (Ram.taken_sysMapCow _ _ _ _ h₁) fun _ _ he => by cases he; rfl
  | mapCap idx =>
    exact .of_taken (Ram.taken_sysMapCap _ _ _ _ _ (Option.some.inj h)) fun _ _ he => by cases he; rfl
  | _ => cases h

theorem turned_step (hk : e.freesTables = false) (hs : Step b k e k') : Turned k e k'.ram := by
  -- scheduling leaves the memory alone
  have hstable : Stable fun _ r => Turned k e r :=
    ⟨fun _ _ _ => id, fun _ _ _ _ _ => id, fun _ _ _ => id, fun _ _ _ _ _ => id⟩
  refine stable_step hstable ⟨?_, ?_, ?_, ?_, ?_⟩ hs
  · intro hrest
    refine .of_taken (.refl _) ?_
    rintro c call rfl
    have ht := hrest c call rfl
    cases call <;> first | rfl | cases ht
  · rintro c call k₁ rfl hb
    cases hb with
    | nothing call _ _ hm =>
      refine .of_taken (.refl _) ?_
      rintro _ _ he
      cases he
      cases call <;> first | rfl | cases hm
    | memory _ _ _ _ h => exact turned_memory h
    | send | receive | mapDemand => exact .of_taken (.refl _) fun _ _ he => by cases he; rfl
    | spawn name k' r h =>
      refine .of_taken ?_ fun _ _ he => by cases he; rfl
      cases name with
      | none =>
        cases h
        exact .refl _
      | some n =>
        obtain ⟨s', ram, res, hsp, rfl⟩ := spawnByName_spawning h
        exact Ram.taken_spawning hsp
    | exec | exitTask => cases hk
  · rintro c call k₁ pc rfl hp
    cases hp with
    | send | receive | sleep | exit => exact .of_taken (.refl _) fun _ _ he => by cases he; rfl
  · intro c ram hf
    cases e with
    | fault c' =>
      obtain ⟨-, rfl⟩ := hf
      exact .of_taken (.refl _) fun _ _ he => by cases he
    | abort c' far esr => exact .of_taken (Ram.taken_resolveUserFault hf.2) fun _ _ he => by cases he
    | enter | idle | tick | syscall | irq | wake | restore => cases hf
  · intro c ram hr
    cases e with
    | abort c' far esr => exact .of_taken (Ram.taken_resolveUserFault hr.2) fun _ _ he => by cases he
    | enter | idle | tick | syscall | fault | irq | wake | restore => cases hr

theorem claim_none {L : Ledger} {i : Nat} (hfree : k'.ram.frames.free i = true) (h : L i = none) :
    L.claim k' i = none := by
  rw [Ledger.claim, hfree, if_neg]
  · exact h
  · rintro ⟨-, hc⟩
    cases hc

theorem agrees_step {s s' : Booked} (h : Agrees s) (hk : KeepsTables s e) (hown : FreesOwn s e)
    (hs : BookedStep b s e s') : Agrees s' := by
  obtain ⟨hstep, hL⟩ := hs
  have hturn := turned_step hk hstep
  intro i hi
  have ht := hturn i hi
  rw [hL]
  cases e with
  | syscall c call =>
    obtain ⟨hold, hhands⟩ := ht
    refine claim_none hi ?_
    rw [Ledger.call, if_neg hhands]
    rcases hold with hold | hfrees
    · rw [h i hold]
      exact ite_self _
    · rw [if_pos ⟨hfrees, hown i hfrees⟩]
  | enter | idle | tick | abort | fault | irq | wake | restore => exact claim_none hi (h i ht)

theorem Agrees.handsFree {s : Booked} (h : Agrees s) : HandsFree s := by
  intro pages i hi
  refine h i ?_
  cases hr : s.1.ram.allocFrames pages with
  | none =>
    rw [Ram.hands, hr] at hi
    cases hi
  | some rb =>
    obtain ⟨r, base⟩ := rb
    exact (Ram.allocFrames_hands hr).1 i hi

end Steps

/-! ## Runs -/

/-- Along every run in which `free_frames` names only what its caller holds, `alloc_frames` hands
out nothing that a task or the kernel holds. -/
theorem frames_handed_once {b : Board} {k₀ : Kernel} {s : Booked} {es : List Event}
    (hrun : Run (guarded (guarded (BookedStep b) KeepsTables) FreesOwn)
      (k₀, Ledger.start k₀) es s) : HandsFree s := by
  refine (hrun.invariant_guarded (I := Agrees) ?_ fun _ hi => if_pos hi).handsFree
  rintro s₁ e s₂ h hown ⟨hk, hs⟩
  exact agrees_step h hk hown hs

instance (s : Booked) (e : Event) : Decidable (FreesOwn s e) :=
  match e with
  | .syscall c call => inferInstanceAs (Decidable (∀ i ∈ s.1.frees call,
      s.2 i = some (.task (s.1.sched.idAt (s.1.cur c)))))
  | .enter | .idle _ | .tick _ | .abort _ _ _ | .fault _ | .irq _ _ | .wake _ | .restore _ =>
    inferInstanceAs (Decidable True)

/-- The booked step, as a function. -/
def nextBooked (b : Board) (s : Booked) (e : Event) : Option Booked :=
  if e.freesTables then none else (s.1.next b e).map fun k' => (k', s.2.after s.1 e k')

theorem nextBooked_step {b : Board} {s s' : Booked} {e : Event} (h : nextBooked b s e = some s') :
    guarded (BookedStep b) KeepsTables s e s' := by
  unfold nextBooked at h
  split at h
  · cases h
  · rename_i hk
    obtain ⟨k', hk', rfl⟩ := Option.map_eq_some_iff.mp h
    exact ⟨Bool.eq_false_iff.mpr hk, step_iff_next.mpr hk', rfl⟩

/-- `net` on CPU 0 and `ping` on CPU 1. -/
def netAndPing : List Event :=
  [.enter, .restore 0, .idle 1, .restore 1]

/-- `net` is handed frame 16 and frees it; `ping` is handed frames 20 and 21, and its tables take
frame 16. -/
theorem frames_handed_once_net : ∃ s, Run
      (guarded (guarded (BookedStep bareBoard) KeepsTables) FreesOwn)
      (sbsaBoot, Ledger.start sbsaBoot) (netAndPing ++ [.syscall 0 (.allocFrames 1),
        .syscall 0 (.freeFrames 0x50010000 1), .syscall 1 (.allocFrames 2)]) s ∧
    s.2 20 = some (.task 8) ∧ s.2 16 = some .kernel ∧ s.1.ram.hands 1 = [24] ∧ HandsFree s := by
  refine Run.exists_and (Run.exists_of_guarded (nextBooked bareBoard) FreesOwn nextBooked_step _ _
    (fun s => s.2 20 = some (.task 8) ∧ s.2 16 = some .kernel ∧ s.1.ram.hands 1 = [24]) (by decide +kernel)) ?_
  rintro s hrun ⟨hping, hkernel, hhands⟩
  exact ⟨hping, hkernel, hhands, frames_handed_once hrun⟩

/-- `net` is handed frame 16, `ping` frees it, and the next caller is handed it again. -/
theorem freed_by_another_handed_again : ¬ ∀ (b : Board) (n : Nat) (k₀ : Kernel) (s : Booked)
    (es : List Event), Boot n k₀ → Run (guarded (BookedStep b) KeepsTables)
      (k₀, Ledger.start k₀) es s → HandsFree s := by
  intro hall
  obtain ⟨s, hrun, hp⟩ := Run.exists_of_exec (nextBooked bareBoard) nextBooked_step
    (sbsaBoot, Ledger.start sbsaBoot)
    (netAndPing ++ [.syscall 0 (.allocFrames 1), .syscall 1 (.freeFrames 0x50010000 1)])
    (fun s => s.1.ram.hands 1 = [16] ∧ s.2 16 = some (.task 6)) (by decide +kernel)
  have hnone := hall bareBoard 10 sbsaBoot s _ boot_sbsaBoot hrun 1 16 (by rw [hp.1]; exact .head _)
  rw [hp.2] at hnone
  cases hnone

end Kernel

end Tanix
