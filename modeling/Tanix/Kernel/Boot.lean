/-
# `Tanix.Kernel.Boot` — the state the boot code leaves

`kmain` spawns `init` and runs it on CPU 0 alone until every server has blocked
in receive or finished; it then spawns the desktop or core servers, gives each
secondary CPU its idle slot (`smp::bring_up`), and calls `enter`.  Spawning takes
the slots and the ids in order, so the server with id `i` stands in slot `i`.

    slot 0          the boot context, Running
    slots 1 .. n    the servers: Ready, Blocked in receive, or Zombie
    slots 16 .. 18  the idle contexts
    the others      empty

CPU 0 is about to call `enter`; the secondaries turn in their idle loops, with
slot 0 as their current slot until the first switch.  Nothing is asked of memory.
The wake hint still names a server: `spawn_user` has set it, and no syscall tail
has consumed it.
-/
import Tanix.Kernel.Scheduled
import Mathlib.Tactic.FinCases

namespace Tanix

open Scheduler

/-- A server as the boot code leaves it. -/
structure AtBoot (t : Task) : Prop where
  affinity : t.cpuAffinity = none
  queue : ∀ q, t.pendingSenders q = none
  staged : t.sendFullWait = none
  awake : t.sleepDeadline = 0
  state : (t.state = .ready ∧ t.recvBlocked = false) ∨ (t.state = .blocked ∧ t.recvBlocked = true) ∨
    (t.state = .zombie ∧ t.recvBlocked = false)

namespace Kernel

/-- The state after booting `n` servers. -/
structure Boot (n : Nat) (k : Kernel) : Prop where
  few : n ≤ 15
  nextId : k.sched.nextId.toNat = n + 1
  boot : ∃ ctx : Context, ctx.pc.isUser = false ∧ k.sched.tasks 0 = some (Task.idle.saveCtx ctx)
  idle : ∀ c, c ≠ 0 → k.sched.tasks (idleSlot c) = some (idleTask c)
  servers : ∀ i, IsUser i → i.val ≤ n → ∃ t, k.sched.tasks i = some t ∧ t.id.toNat = i.val ∧ AtBoot t
  empty : ∀ i, IsUser i → n < i.val → k.sched.tasks i = none
  hint : UserHint k.sched
  cpu0 : k.cur 0 = 0 ∧ (k.cpus 0).mode = .boot
  secondary : ∀ c, c ≠ 0 → k.cur c = 0 ∧ (k.cpus c).mode = .idle c

/-- What stands in a slot at boot. -/
inductive BootSlot (n : Nat) (i : Slot) (t : Task) : Prop
  | boot (hi : i = 0) (ctx : Context) (hctx : ctx.pc.isUser = false) (ht : t = Task.idle.saveCtx ctx)
  | idle (c : Cpu) (hc : c ≠ 0) (hi : i = idleSlot c) (ht : t = idleTask c)
  | server (hi : IsUser i) (hn : i.val ≤ n) (hid : t.id.toNat = i.val) (ht : AtBoot t)

variable {i : Slot} {t : Task}

section Boot

variable {n : Nat} {k : Kernel}

theorem Boot.slot (h : Boot n k) (ht : k.sched.tasks i = some t) : BootSlot n i t := by
  by_cases hu : IsUser i
  · by_cases hn : i.val ≤ n
    · obtain ⟨t', ht', hid, hb⟩ := h.servers i hu hn
      rw [ht] at ht'
      cases ht'
      exact .server hu hn hid hb
    · rw [h.empty i hu (Nat.lt_of_not_le hn)] at ht
      cases ht
  · obtain ⟨c, hc⟩ := not_forall.mp hu
    obtain rfl := not_not.mp hc
    rcases eq_or_ne c 0 with rfl | hc0
    · obtain ⟨ctx, hctx, hboot⟩ := h.boot
      rw [idleSlot_zero, hboot] at ht
      cases ht
      exact .boot rfl ctx hctx rfl
    · rw [h.idle c hc0] at ht
      cases ht
      exact .idle c hc0 rfl rfl

/-- The id that goes with a slot. -/
def bootId (i : Slot) : Nat :=
  if 16 ≤ i.val ∧ i.val ≤ 18 then 0x40000000 + (i.val - 15) else i.val

theorem bootId_injective : Function.Injective bootId := by
  intro i j h
  have hi : i.val < 32 := i.isLt
  have hj : j.val < 32 := j.isLt
  unfold bootId at h
  ext
  split at h <;> split at h <;> omega

theorem bootId_idleSlot : ∀ c : Cpu, c ≠ 0 → (idleTask c).id.toNat = bootId (idleSlot c) := by
  decide

theorem bootId_large : ∀ c : Cpu, c ≠ 0 → 0x40000000 ≤ bootId (idleSlot c) := by
  decide

theorem bootId_isUser : ∀ i : Slot, IsUser i → bootId i = i.val := by
  decide

theorem BootSlot.id (h : BootSlot n i t) : t.id.toNat = bootId i := by
  cases h with
  | boot hi ctx _ ht =>
    subst hi ht
    rfl
  | idle c hc hi ht =>
    subst hi ht
    exact bootId_idleSlot c hc
  | server hi _ hid _ =>
    rw [hid, bootId_isUser i hi]

theorem BootSlot.queue (h : BootSlot n i t) (q : Fin maxPendingSenders) :
    t.pendingSenders q = none := by
  cases h with
  | boot _ _ _ ht | idle _ _ _ ht =>
    subst ht
    rfl
  | server _ _ _ ht => exact ht.queue q

/-- At boot the only reason to wait is a receive, and it is a server's. -/
theorem Boot.waits (h : Boot n k) {r : Reason} (hw : Waits k.sched i r) :
    r = .recv ∧ IsUser i ∧ k.sched.stateIs i .blocked = true := by
  by_cases hr : r.IsQueued
  · obtain ⟨d, q, rfl⟩ := hr
    obtain ⟨_, u, p, _, hu, hp, _⟩ := hw
    rw [(h.slot hu).queue q] at hp
    cases hp
  · obtain ⟨t, ht, hwt⟩ := (waits_own hr).mp hw
    cases h.slot ht with
    | boot _ _ _ he | idle _ _ _ he =>
      subst he
      cases r with
      | queued d q => exact absurd ⟨d, q, rfl⟩ hr
      | recv => cases hwt
      | sleep => exact absurd rfl hwt
      | staged => exact absurd rfl hwt
    | server hi _ _ hb =>
      cases r with
      | queued d q => exact absurd ⟨d, q, rfl⟩ hr
      | recv =>
        refine ⟨rfl, hi, stateIs_iff.mpr ⟨t, ht, ?_⟩⟩
        have hrecv : t.recvBlocked = true := hwt
        rcases hb.state with ⟨-, hno⟩ | ⟨hst, -⟩ | ⟨-, hno⟩
        · rw [hrecv] at hno
          cases hno
        · exact hst
        · rw [hrecv] at hno
          cases hno
      | sleep => exact absurd hb.awake hwt
      | staged => exact absurd hb.staged hwt

theorem Boot.cur_zero (h : Boot n k) (c : Cpu) : k.cur c = 0 := by
  rcases eq_or_ne c 0 with rfl | hc
  · exact h.cpu0.1
  · exact (h.secondary c hc).1

theorem Boot.quiet (h : Boot n k) (hi : i ≠ 0) : Quiet k.curs i := by
  intro c hc
  rw [curs, h.cur_zero c] at hc
  exact hi (Option.some.inj hc).symm

theorem Boot.sound (h : Boot n k) : Sound k.sched k.curs := by
  refine ⟨⟨?_, ?_, ?_⟩, ?_, ?_, ?_, ?_, ?_, ?_, ?_, ?_, ?_, ?_⟩
  · intro i j t u ht hu hid
    refine bootId_injective ?_
    rw [← (h.slot ht).id, ← (h.slot hu).id, hid]
  · intro i t ht
    have hfew := h.few
    rw [(h.slot ht).id, h.nextId]
    cases h.slot ht with
    | boot hi =>
      subst hi
      exact Or.inl (Nat.succ_pos n)
    | idle c hc hi =>
      subst hi
      exact Or.inr (bootId_large c hc)
    | server hi hn =>
      rw [bootId_isUser i hi]
      omega
  · have hcard : k.sched.empties ≤ 32 := (Finset.card_filter_le _ _).trans (by simp)
    have hfew := h.few
    rw [h.nextId]
    omega
  · intro j
    rcases eq_or_ne j 0 with rfl | hj
    · obtain ⟨ctx, -, ht⟩ := h.boot
      exact ⟨_, ht⟩
    · exact ⟨_, h.idle j hj⟩
  · intro j t hj ht
    rw [h.idle j hj] at ht
    cases ht
    rfl
  · intro c i hc
    cases hc
    rw [h.cur_zero c]
    obtain ⟨ctx, -, ht⟩ := h.boot
    exact ⟨_, ht⟩
  · intro c c' i hc _ hi
    exact absurd hc (h.quiet hi c)
  · intro c j hj hc
    refine absurd hc (h.quiet ?_ c)
    intro h0
    exact hj (idleSlot_injective h0)
  · intro i hi _
    exact h.quiet hi.ne_zero
  · intro i r hw
    obtain ⟨-, hu, hb⟩ := h.waits hw
    exact ⟨hu, Or.inl hb, h.quiet hu.ne_zero⟩
  · intro i r r' hw hw'
    rw [(h.waits hw).1, (h.waits hw').1]
  · intro d u q p hu hp
    rw [(h.slot hu).queue q] at hp
    cases hp
  · intro i t ht hpc
    cases h.slot ht with
    | boot _ ctx hctx he =>
      subst he
      rw [show (Task.idle.saveCtx ctx).ctx = ctx from rfl, hctx] at hpc
      cases hpc
    | idle _ _ _ he =>
      subst he
      cases hpc
    | server hi => exact hi

theorem Boot.scheduled (h : Boot n k) : Scheduled k := by
  refine ⟨h.sound, ?_, h.hint⟩
  intro c hm
  rcases eq_or_ne c 0 with rfl | hc
  · rw [h.cpu0.2] at hm
    cases hm
  · rw [(h.secondary c hc).2] at hm
    cases hm

end Boot

/-! ## A boot on `sbsa-ref` -/

/-- RAM from 1 TiB on. -/
def sbsaMachine : Machine :=
  ⟨true, 0x10000000000, 0x60000000, 0⟩

/-- A machine without server images. -/
def bareBoard : Board where
  machine := sbsaMachine
  machineId := 1
  kernelL0 := 0
  zeroPage := 0
  bins := fun _ => none

/-- A server at boot; one that is Blocked waits in receive. -/
def bootServer (id : UInt32) (name : String) (state : TaskState) : Task :=
  { serverTask id name (0x50000000 + id.toNat * pageSize) (sbsaMachine.serverLinkBase name)
      (sbsaMachine.serverLinkBase name + 4 * pageSize) (fun _ => .empty) with
    state := state
    recvBlocked := state == .blocked
    recvBuf := 0x1000
    ctx := ⟨if state = .blocked then .receive 0x1000 else .entry,
      0x50000000 + id.toNat * pageSize⟩ }

/-- `init` has set up `pm`, `mem` and `dev`, `worker` has run, and the core servers are new. -/
def sbsaTable : Slot → Option Task
  | 0 => some (Task.idle.saveCtx ⟨.bootEnter, 0⟩)
  | 1 => some (bootServer 1 "init" .zombie)
  | 2 => some (bootServer 2 "pm" .blocked)
  | 3 => some (bootServer 3 "mem" .blocked)
  | 4 => some (bootServer 4 "dev" .blocked)
  | 5 => some (bootServer 5 "worker" .zombie)
  | 6 => some (bootServer 6 "net" .ready)
  | 7 => some (bootServer 7 "hog" .ready)
  | 8 => some (bootServer 8 "ping" .ready)
  | 9 => some (bootServer 9 "pong" .ready)
  | 10 => some (bootServer 10 "fs" .ready)
  | 16 => some (idleTask 1)
  | 17 => some (idleTask 2)
  | 18 => some (idleTask 3)
  | _ => none

def sbsaBoot : Kernel where
  sched := { tasks := sbsaTable, nextId := 11, woken := some 10 }
  cpus := fun c => { current := 0, mode := if c = 0 then .boot else .idle c, ttbr0 := 0, x0 := 0 }
  ram :=
    { frames := ⟨0x50000000, 0x10000000, 0x10000, fun i => decide (16 ≤ i) && decide (i < 64), 48⟩
      mem := fun _ _ => 0 }
  ticks := 0
  pending := fun _ => false
  bufs := fun _ _ => ⟨0, 0, Vector.replicate 8 0⟩

/-- A server as the boot code leaves it in slot `i`, as a test. -/
def bootTest (i : Slot) (t : Task) : Bool :=
  t.id.toNat == i.val && t.cpuAffinity.isNone && (t.pendingSenders 0).isNone &&
    (t.pendingSenders 1).isNone && t.sendFullWait.isNone && t.sleepDeadline == 0 &&
    (t.recvBlocked == (t.state == .blocked)) && t.state != .running

theorem atBoot_of_test (h : bootTest i t = true) : t.id.toNat = i.val ∧ AtBoot t := by
  simp only [bootTest, Bool.and_eq_true, beq_iff_eq, Option.isNone_iff_eq_none, bne_iff_ne] at h
  obtain ⟨⟨⟨⟨⟨⟨⟨hid, haff⟩, hq0⟩, hq1⟩, hst⟩, hd⟩, hrecv⟩, hrun⟩ := h
  refine ⟨hid, haff, ?_, hst, hd, ?_⟩
  · intro q
    fin_cases q
    · exact hq0
    · exact hq1
  · cases hs : t.state with
    | running => exact absurd hs hrun
    | ready => exact Or.inl ⟨rfl, by rw [hrecv, hs]; rfl⟩
    | blocked => exact Or.inr (Or.inl ⟨rfl, by rw [hrecv, hs]; rfl⟩)
    | zombie => exact Or.inr (Or.inr ⟨rfl, by rw [hrecv, hs]; rfl⟩)

theorem servers_of_test {tasks : Slot → Option Task} {n : Nat}
    (h : ∀ i, IsUser i → i.val ≤ n → (tasks i).any (bootTest i) = true) :
    ∀ i, IsUser i → i.val ≤ n → ∃ t, tasks i = some t ∧ t.id.toNat = i.val ∧ AtBoot t := by
  intro i hi hn
  obtain ⟨t, ht, htest⟩ := (Option.any_eq_true ..).mp (h i hi hn)
  exact ⟨t, ht, atBoot_of_test htest⟩

theorem idle_of_slots {tasks : Slot → Option Task} (h₁ : tasks 16 = some (idleTask 1))
    (h₂ : tasks 17 = some (idleTask 2)) (h₃ : tasks 18 = some (idleTask 3)) (c : Cpu) (hc : c ≠ 0) :
    tasks (idleSlot c) = some (idleTask c) := by
  fin_cases c
  · exact absurd rfl hc
  · exact h₁
  · exact h₂
  · exact h₃

theorem boot_sbsaBoot : Boot 10 sbsaBoot where
  few := by decide
  nextId := rfl
  boot := ⟨⟨.bootEnter, 0⟩, rfl, rfl⟩
  idle := idle_of_slots rfl rfl rfl
  servers := servers_of_test (by decide)
  empty := by decide
  hint := by
    intro w hw
    cases hw
    decide
  cpu0 := ⟨rfl, rfl⟩
  secondary := by
    intro c hc
    exact ⟨rfl, if_neg hc⟩

end Kernel

end Tanix
