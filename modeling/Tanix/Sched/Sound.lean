/-
# `Tanix.Sched.Sound` — what every state of the task table keeps

`Sound s cur` relates the table to the slots the CPUs run.  `cur c = none` while
CPU `c` is between two tasks: it has given up its slot inside the critical
section and has not taken the next one.

    exclusive, own    a slot is current on at most one CPU; idle slots stay at home
    ready             a Ready user slot is current nowhere
    waits, unique     a waiting slot is a parked user slot, for one reason only
    ids, bound, room  task ids are distinct and fresh ones can be had
    idle, affinity    the boot slot and the idle slots are what boot made them
    saved             user contexts are saved in user slots only

Slot 0 is shared: every secondary counts it as current until its first switch.

Each write of the kernel is shown to keep this, under the condition that its
caller gives.  `Sound.install` closes a switch: the next slot is the CPU's own
idle slot or a runnable one.
-/
import Tanix.Ipc.Waits
import Tanix.Sched.Argmin
import Tanix.Sched.Lifecycle
import Mathlib.Data.Fintype.Card

namespace Tanix

/-- Neither the boot slot nor an idle slot. -/
def IsUser (i : Slot) : Prop :=
  ∀ j, i ≠ idleSlot j

instance (i : Slot) : Decidable (IsUser i) :=
  inferInstanceAs (Decidable (∀ j, i ≠ idleSlot j))

@[simp] theorem idleSlot_zero : idleSlot 0 = 0 := rfl

variable {i k : Slot}

theorem IsUser.ne_zero (h : IsUser i) : i ≠ 0 :=
  h 0

theorem idleSlot_injective : Function.Injective idleSlot := by
  decide

variable (cur : Cpu → Option Slot)

/-- Nobody runs slot `i`. -/
def Quiet (i : Slot) : Prop :=
  ∀ c, cur c ≠ some i

variable (s : Scheduler)

/-- The number of empty slots. -/
def Scheduler.empties : Nat :=
  (Finset.univ.filter fun i => s.tasks i = none).card

open Scheduler

/-- The state that goes with a reason to wait: Blocked, or killed while it waited; the dead are
taken out of receive. -/
def AtRest (i : Slot) (r : Reason) : Prop :=
  s.stateIs i .blocked = true ∨ (s.stateIs i .zombie = true ∧ r ≠ .recv)

variable {s' : Scheduler} {s}

theorem AtRest.congr {r : Reason} (hst : ∀ st, s'.stateIs i st = s.stateIs i st)
    (h : AtRest s i r) : AtRest s' i r := by
  rw [AtRest, hst, hst]
  exact h

/-- Task ids are distinct, and there are enough left for the empty slots. -/
structure Numbered (s : Scheduler) : Prop where
  ids : s.UniqueIds
  bound : ∀ i t, s.tasks i = some t → t.id.toNat < s.nextId.toNat ∨ 0x40000000 ≤ t.id.toNat
  room : s.nextId.toNat + s.empties ≤ 64

structure Sound (s : Scheduler) (cur : Cpu → Option Slot) : Prop extends Numbered s where
  idle : ∀ j, ∃ t, s.tasks (idleSlot j) = some t
  affinity : ∀ j t, j ≠ 0 → s.tasks (idleSlot j) = some t → t.cpuAffinity = some j
  present : ∀ c i, cur c = some i → ∃ t, s.tasks i = some t
  exclusive : ∀ c c' i, cur c = some i → cur c' = some i → i ≠ 0 → c = c'
  own : ∀ c j, j ≠ 0 → cur c = some (idleSlot j) → c = j
  ready : ∀ i, IsUser i → s.stateIs i .ready = true → Quiet cur i
  waits : ∀ i r, Waits s i r →
    IsUser i ∧ AtRest s i r ∧ Quiet cur i
  unique : ∀ i r r', Waits s i r → Waits s i r' → r = r'
  sources : ∀ d u q p, s.tasks d = some u → u.pendingSenders q = some p →
    ∃ i t, s.tasks i = some t ∧ t.id = p.src
  saved : ∀ i t, s.tasks i = some t → t.ctx.pc.isUser = true → IsUser i

/-! ## Giving a slot up -/

variable {cur}

theorem Sound.mono {cur' : Cpu → Option Slot} (h : Sound s cur)
    (hle : ∀ c i, cur' c = some i → cur c = some i) : Sound s cur' :=
  { h with
    present := fun c i hc => h.present c i (hle c i hc)
    exclusive := fun c c' i hc hc' => h.exclusive c c' i (hle c i hc) (hle c' i hc')
    own := fun c j hj hc => h.own c j hj (hle c _ hc)
    ready := fun i hi hr c hc => h.ready i hi hr c (hle c i hc)
    waits := fun i r hw => by
      obtain ⟨hu, hrest, hquiet⟩ := h.waits i r hw
      exact ⟨hu, hrest, fun c hc => hquiet c (hle c i hc)⟩ }

theorem Sound.release (h : Sound s cur) (c : Cpu) : Sound s (Function.update cur c none) := by
  refine h.mono fun c' i hc' => ?_
  by_cases hcc : c' = c
  · subst hcc
    simp at hc'
  · rwa [Function.update_of_ne hcc] at hc'

variable {c : Cpu}

/-- The caller's slot is quiet once it is given up. -/
theorem Sound.quiet_release (h : Sound s cur) (hc : cur c = some i) (hi : i ≠ 0) :
    Quiet (Function.update cur c none) i := by
  intro c' hc'
  by_cases hcc : c' = c
  · subst hcc
    simp at hc'
  · rw [Function.update_of_ne hcc] at hc'
    exact hcc (h.exclusive c' c i hc' hc hi)

/-- A slot that is current waits for nothing. -/
theorem Sound.current_awake (h : Sound s cur) (hc : cur c = some i) (r : Reason) : ¬ Waits s i r :=
  fun hw => (h.waits i r hw).2.2 c hc

/-! ## Writes -/

/-- A write that keeps a task's identity, its affinity and its saved context. -/
structure Static (f : Task → Task) : Prop where
  id : ∀ t, (f t).id = t.id
  affinity : ∀ t, (f t).cpuAffinity = t.cpuAffinity
  ctx : ∀ t, (f t).ctx = t.ctx

variable {f : Task → Task}

section Writes

variable {s : Scheduler} {cur : Cpu → Option Slot}

/-- The same tasks in the same slots, with the same affinities. -/
structure SameStatic (s s' : Scheduler) : Prop where
  ids : SameIds s s'
  affinity : ∀ i, (s'.tasks i).map (·.cpuAffinity) = (s.tasks i).map (·.cpuAffinity)
  nextId : s'.nextId = s.nextId

theorem Scheduler.SameIds.empties (h : SameIds s s') : s'.empties = s.empties := by
  have hnone : ∀ i, s'.tasks i = none ↔ s.tasks i = none := by
    intro i
    rw [← Option.map_eq_none_iff (f := (·.id)), h i, Option.map_eq_none_iff]
  unfold Scheduler.empties
  simp only [hnone]

theorem Numbered.of_same (h : Numbered s) (hsame : SameIds s s') (hn : s'.nextId = s.nextId) :
    Numbered s' := by
  refine ⟨hsame.uniqueIds h.ids, ?_, ?_⟩
  · intro i t ht
    obtain ⟨t₀, ht₀, hid⟩ := hsame.bwd ht
    rw [← hid, hn]
    exact h.bound i t₀ ht₀
  · rw [hsame.empties, hn]
    exact h.room

/-- Slot `i` waits now and did not before: a quiet user slot, for one reason. -/
structure Begins (s : Scheduler) (cur : Cpu → Option Slot) (i : Slot) (r : Reason) : Prop where
  user : IsUser i
  rest : AtRest s i r
  quiet : Quiet cur i
  only : ∀ r', Waits s i r' → r' = r

theorem sameStatic_modify (s : Scheduler) (k : Slot) (hid : ∀ t, (f t).id = t.id)
    (haff : ∀ t, (f t).cpuAffinity = t.cpuAffinity) : SameStatic s (s.modify k f) :=
  ⟨map_modify hid, map_modify haff, rfl⟩

section

variable (h : Sound s cur)

include h

/-- What has to be shown of a change that makes and removes no task. -/
theorem Sound.change (hsame : SameStatic s s') (hsrc : Sources s s')
    (hready : ∀ i, IsUser i → s'.stateIs i .ready = true → Quiet cur i)
    (hwaits : ∀ i r, Waits s' i r → Waits s i r ∧ (AtRest s i r → AtRest s' i r) ∨ Begins s' cur i r)
    (hsaved : ∀ i t, s'.tasks i = some t → t.ctx.pc.isUser = true → IsUser i) : Sound s' cur := by
  refine ⟨h.of_same hsame.ids hsame.nextId, ?_, ?_, ?_, h.exclusive, h.own, hready, ?_, ?_, ?_,
    hsaved⟩
  · intro j
    obtain ⟨t, ht⟩ := h.idle j
    obtain ⟨t', ht', -⟩ := hsame.ids.fwd ht
    exact ⟨t', ht'⟩
  · intro j t hj ht
    obtain ⟨t₀, ht₀, -⟩ := hsame.ids.bwd ht
    have ha := hsame.affinity (idleSlot j)
    rw [ht, ht₀] at ha
    rw [← h.affinity j t₀ hj ht₀]
    exact Option.some.inj ha
  · intro c i hc
    obtain ⟨t, ht⟩ := h.present c i hc
    obtain ⟨t', ht', -⟩ := hsame.ids.fwd ht
    exact ⟨t', ht'⟩
  · intro i r hw
    rcases hwaits i r hw with ⟨hold, hrest⟩ | hnew
    · obtain ⟨hu, hb, hquiet⟩ := h.waits i r hold
      exact ⟨hu, hrest hb, hquiet⟩
    · exact ⟨hnew.user, hnew.rest, hnew.quiet⟩
  · intro i r r' h₁ h₂
    rcases hwaits i r h₁ with ⟨old₁, -⟩ | hnew
    · rcases hwaits i r' h₂ with ⟨old₂, -⟩ | hnew
      · exact h.unique i r r' old₁ old₂
      · exact hnew.only r h₁
    · exact (hnew.only r' h₂).symm
  · intro d u q p hu hp
    exact hsame.ids.known (hsrc d u q p hu hp)

/-- The same for a write to one slot. -/
theorem Sound.modify (hf : Static f) (hsrc : Sources s (s.modify k f))
    (hready : IsUser k → (s.modify k f).stateIs k .ready = true → Quiet cur k)
    (hwaits : ∀ i r, Waits (s.modify k f) i r →
      Waits s i r ∧ (AtRest s i r → AtRest (s.modify k f) i r) ∨ Begins (s.modify k f) cur i r) :
    Sound (s.modify k f) cur := by
  refine h.change (sameStatic_modify s k hf.id hf.affinity) hsrc ?_ hwaits ?_
  · intro i hi hr
    by_cases hik : i = k
    · subst hik
      exact hready hi hr
    · rw [stateIs_modify_ne s f _ hik] at hr
      exact h.ready i hi hr
  · intro i t ht hpc
    have hctx := map_modify (s := s) (k := k) hf.ctx i
    rw [ht] at hctx
    obtain ⟨t₀, ht₀, he⟩ := Option.map_eq_some_iff.mp hctx.symm
    exact h.saved i t₀ ht₀ (by rw [he]; exact hpc)

/-- Sources, for a write that leaves the queues alone. -/
theorem Sound.sources_keep (hq : ∀ t, (f t).pendingSenders = t.pendingSenders) :
    Sources s (s.modify k f) :=
  Sources.modify h.sources fun t _ _ hp => .inl (by rwa [hq t] at hp)

/-- A write that keeps the state and adds no reason to wait. -/
theorem Sound.frame (hf : Static f) (hq : ∀ t, (f t).pendingSenders = t.pendingSenders)
    (hst : ∀ t, (f t).state = t.state) (hle : ∀ t r, (f t).waitsOn r → t.waitsOn r) :
    Sound (s.modify k f) cur := by
  refine h.modify hf (h.sources_keep hq) ?_ fun i r hw => .inl ⟨waits_modify_le hf.id hq hle hw, ?_⟩
  · intro hk hr
    rw [stateIs_modify_keep s k k hst] at hr
    exact h.ready k hk hr
  · exact .congr (stateIs_modify_keep s k i hst)

/-- Saving a context: a user context only into a user slot. -/
theorem Sound.saveCtx (ctx : Context) (hpc : ctx.pc.isUser = true → IsUser k) :
    Sound (s.modify k (Task.saveCtx ctx)) cur := by
  have hst : ∀ i st, (s.modify k (Task.saveCtx ctx)).stateIs i st = s.stateIs i st :=
    fun i => stateIs_modify_keep s k i fun _ => rfl
  refine h.change (sameStatic_modify s k (fun _ => rfl) fun _ => rfl)
    (h.sources_keep fun _ => rfl) ?_ (fun i r hw => .inl ⟨?_, .congr (hst i)⟩) ?_
  · intro i hi hr
    rw [hst] at hr
    exact h.ready i hi hr
  · exact waits_modify_le (f := Task.saveCtx ctx) (fun _ => rfl) (fun _ => rfl)
      (fun _ r => by cases r <;> exact id) hw
  · intro i t ht hu
    obtain ⟨t₀, ht₀, rfl⟩ := modify_some ht
    split at hu
    · rename_i hik
      rw [hik]
      exact hpc hu
    · exact h.saved i t₀ ht₀ hu

/-- A write that makes a Zombie, wherever the task is, takes it out of receive and adds no reason
to wait. -/
theorem Sound.die (hf : Static f) (hq : ∀ t, (f t).pendingSenders = t.pendingSenders)
    (hst : ∀ t, (f t).state = .zombie) (hrecv : ∀ t, (f t).recvBlocked = false)
    (hle : ∀ t r, (f t).waitsOn r → t.waitsOn r) : Sound (s.modify k f) cur := by
  have hz : ∀ t, s.tasks k = some t → ∀ st,
      (s.modify k f).stateIs k st = (TaskState.zombie == st) := by
    intro t ht st
    rw [stateIs_modify_same ht, hst]
  refine h.modify hf (h.sources_keep hq) ?_ ?_
  · intro _ hr
    obtain ⟨u, hu, hst'⟩ := stateIs_iff.mp hr
    obtain ⟨t, ht, -⟩ := modify_some hu
    rw [hz t ht] at hr
    cases hr
  · intro i r hwi
    have hw := waits_modify_le hf.id hq hle hwi
    refine .inl ⟨hw, fun hb => ?_⟩
    rcases eq_or_ne i k with rfl | hik
    · obtain ⟨t, ht⟩ := hw.occupied
      refine Or.inr ⟨by rw [hz t ht]; rfl, ?_⟩
      rintro rfl
      obtain ⟨u, hu, hrb⟩ := hwi
      obtain ⟨t', -, rfl⟩ := modify_some hu
      rw [if_pos rfl, Task.waitsOn, hrecv] at hrb
      cases hrb
    · exact hb.congr fun st => stateIs_modify_ne s f st hik

/-- A slot that nobody runs and that waits for nothing may take any state. -/
theorem Sound.setState (st : TaskState) (hq : IsUser k → Quiet cur k) (hw : ∀ r, ¬ Waits s k r) :
    Sound (s.setState k st) cur := by
  refine h.modify ⟨fun _ => rfl, fun _ => rfl, fun _ => rfl⟩ (h.sources_keep fun _ => rfl)
    (fun hk _ => hq hk) fun i r hwi => ?_
  have hold := (waits_setState i r st).mp hwi
  have hik : i ≠ k := by
    rintro rfl
    exact hw r hold
  exact .inl ⟨hold, .congr fun st' => stateIs_setState_ne s st st' hik⟩

/-- Ending a wait that stands in the waiter's own block, and making it Ready. -/
theorem Sound.lose {r₀ : Reason} (hr₀ : ¬ r₀.IsQueued) (hf : Static f)
    (hq : ∀ t, (f t).pendingSenders = t.pendingSenders)
    (hlose : ∀ t r, (f t).waitsOn r ↔ t.waitsOn r ∧ r ≠ r₀) (hk : Waits s k r₀) :
    Sound (s.modify k f) cur := by
  have hw := waits_modify_lose (s := s) (k := k) hf.id hq hr₀ hlose
  refine h.modify hf (h.sources_keep hq) (fun _ _ => (h.waits k r₀ hk).2.2) fun i r hwi => ?_
  obtain ⟨hold, hne⟩ := (hw i r).mp hwi
  have hik : i ≠ k := by
    rintro rfl
    exact hne ⟨rfl, h.unique i r r₀ hold hk⟩
  exact .inl ⟨hold, .congr fun st => stateIs_modify_ne s f st hik⟩

/-- A quiet user slot starts to wait, in its own block. -/
theorem Sound.gain {r₀ : Reason} {t : Task} (hr₀ : ¬ r₀.IsQueued) (hf : Static f)
    (hq : ∀ t, (f t).pendingSenders = t.pendingSenders)
    (hgain : ∀ t r, (f t).waitsOn r ↔ t.waitsOn r ∨ r = r₀) (hst : ∀ t, (f t).state = .blocked)
    (hk : s.tasks k = some t) (huser : IsUser k) (hquiet : Quiet cur k) (hno : ∀ r, ¬ Waits s k r) :
    Sound (s.modify k f) cur := by
  have hw := waits_modify_gain (s := s) (k := k) hf.id hq hr₀ hgain hk
  refine h.modify hf (h.sources_keep hq) (fun _ _ => hquiet) fun i r hwi => ?_
  rcases (hw i r).mp hwi with hold | ⟨rfl, rfl⟩
  · have hik : i ≠ k := by
      rintro rfl
      exact hno r hold
    exact .inl ⟨hold, .congr fun st => stateIs_modify_ne s f st hik⟩
  · refine .inr ⟨huser, Or.inl ?_, hquiet, fun r' hw' => (((hw i r').mp hw').resolve_left (hno r')).2⟩
    rw [stateIs_modify_same hk, hst]
    rfl

/-! ## Taking a slot -/

/-- A Ready slot waits for nothing. -/
theorem Sound.ready_awake (hr : s.stateIs i .ready = true) (r : Reason) : ¬ Waits s i r := by
  intro hw
  obtain ⟨t, ht, hst⟩ := stateIs_iff.mp hr
  rcases (h.waits i r hw).2.1 with hb | ⟨hz, -⟩
  · rw [stateIs, ht] at hb
    simp [hst] at hb
  · rw [stateIs, ht] at hz
    simp [hst] at hz

theorem Sound.idle_awake (j : Cpu) (r : Reason) : ¬ Waits s (idleSlot j) r :=
  fun hw => (h.waits _ r hw).1 j rfl

end

/-- What CPU `c` may switch to: its own idle slot, or a Ready user slot. -/
def MaySwitch (s : Scheduler) (c : Cpu) (next : Slot) : Prop :=
  next = idleSlot c ∨ (IsUser next ∧ s.stateIs next .ready = true)

theorem MaySwitch.mono {next : Slot} (h : MaySwitch s c next)
    (hst : s.stateIs next .ready = true → s'.stateIs next .ready = true) : MaySwitch s' c next :=
  h.imp id fun ⟨hu, hr⟩ => ⟨hu, hst hr⟩

/-- A runnable slot from 1 up is a user slot, or the CPU's own idle slot. -/
theorem Sound.maySwitch_of_runnable (h : Sound s cur) (hi : i ≠ 0) (hr : s.Runnable c i) :
    MaySwitch s c i := by
  obtain ⟨t, ht, hst, haff⟩ := hr
  by_cases hu : IsUser i
  · exact Or.inr ⟨hu, stateIs_iff.mpr ⟨t, ht, hst⟩⟩
  · obtain ⟨j, hj⟩ := not_forall.mp hu
    obtain rfl := not_not.mp hj
    have hj0 : j ≠ 0 := by
      rintro rfl
      exact hi rfl
    rw [h.affinity j t hj0 ht] at haff
    rcases haff with hnone | hsome
    · cases hnone
    · cases hsome
      exact Or.inl rfl

theorem Sound.maySwitch_pickNext (h : Sound s cur) (c : Cpu) (start : Slot) :
    MaySwitch s c (s.pickNext c start) := by
  rcases pickNext_cases s c start with ⟨hidle, -⟩ | ⟨⟨h0, hr⟩, -⟩
  · exact Or.inl hidle
  · exact h.maySwitch_of_runnable h0 hr

theorem Sound.maySwitch_pickNextRr (h : Sound s cur) (c : Cpu) (start exclude : Slot) :
    MaySwitch s c (s.pickNextRr c start exclude) := by
  rcases pickNextRr_cases s c start exclude with ⟨hidle, -⟩ | ⟨⟨h0, hr⟩, -⟩
  · exact Or.inl hidle
  · exact h.maySwitch_of_runnable h0 hr

/-- CPU `c`, between two tasks, takes `next`. -/
theorem Sound.install (h : Sound s cur) {next : Slot} (hc : cur c = none)
    (hn : MaySwitch s c next) :
    Sound (s.setState next .running) (Function.update cur c (some next)) := by
  have hawake : ∀ r, ¬ Waits s next r := by
    rcases hn with rfl | ⟨-, hr⟩
    · exact h.idle_awake c
    · exact h.ready_awake hr
  have hquiet : IsUser next → Quiet cur next := by
    rcases hn with rfl | ⟨hu, hr⟩
    · exact fun hu => absurd rfl (hu c)
    · exact fun _ => h.ready next hu hr
  -- nobody else holds the slot, unless it is slot 0
  have hfree : ∀ c', cur c' = some next → next = 0 := by
    intro c' hc'
    rcases hn with rfl | ⟨hu, -⟩
    · by_cases hc0 : c = 0
      · rw [hc0]
        rfl
      · have heq := h.own c' c hc0 hc'
        rw [heq, hc] at hc'
        cases hc'
    · exact absurd hc' (hquiet hu c')
  have hs := h.setState .running hquiet hawake
  have hold : ∀ c' i, Function.update cur c (some next) c' = some i →
      (c' = c ∧ i = next) ∨ (c' ≠ c ∧ cur c' = some i) := by
    intro c' i hi
    by_cases hcc : c' = c
    · subst hcc
      rw [Function.update_self] at hi
      cases hi
      exact Or.inl ⟨rfl, rfl⟩
    · rw [Function.update_of_ne hcc] at hi
      exact Or.inr ⟨hcc, hi⟩
  refine ⟨hs.toNumbered, hs.idle, hs.affinity, ?_, ?_, ?_, ?_, ?_, hs.unique,
    hs.sources, hs.saved⟩
  · intro c' i hi
    rcases hold c' i hi with ⟨-, rfl⟩ | ⟨-, hi⟩
    · rcases hn with rfl | ⟨-, hr⟩
      · exact hs.idle c
      · obtain ⟨t, ht, -⟩ := stateIs_iff.mp hr
        exact ⟨_, setState_tasks_same ht .running⟩
    · exact hs.present c' i hi
  · intro c₁ c₂ i h₁ h₂ hi
    rcases hold c₁ i h₁ with ⟨hc₁, hi₁⟩ | ⟨-, old₁⟩
    · rcases hold c₂ i h₂ with ⟨hc₂, -⟩ | ⟨-, old₂⟩
      · rw [hc₁, hc₂]
      · rw [hi₁] at old₂ hi
        exact absurd (hfree c₂ old₂) hi
    · rcases hold c₂ i h₂ with ⟨-, hi₂⟩ | ⟨-, old₂⟩
      · rw [hi₂] at old₁ hi
        exact absurd (hfree c₁ old₁) hi
      · exact h.exclusive c₁ c₂ i old₁ old₂ hi
  · intro c' j hj hi
    rcases hold c' _ hi with ⟨rfl, hnext⟩ | ⟨-, hi⟩
    · rcases hn with hidle | ⟨hu, -⟩
      · exact idleSlot_injective (hidle.symm.trans hnext.symm)
      · exact absurd hnext.symm (hu j)
    · exact h.own c' j hj hi
  · intro i hi hr c' hc'
    rcases hold c' i hc' with ⟨-, rfl⟩ | ⟨-, hc'⟩
    · obtain ⟨t, ht⟩ : ∃ t, s.tasks i = some t := by
        obtain ⟨u, hu, -⟩ := stateIs_iff.mp hr
        obtain ⟨t, ht, -⟩ := modify_some hu
        exact ⟨t, ht⟩
      rw [stateIs_setState_same ht] at hr
      cases hr
    · exact hs.ready i hi hr c' hc'
  · intro i r hw
    obtain ⟨hu, hb, hq⟩ := hs.waits i r hw
    refine ⟨hu, hb, fun c' hc' => ?_⟩
    rcases hold c' i hc' with ⟨-, rfl⟩ | ⟨-, hc'⟩
    · exact hawake r ((waits_setState i r .running).mp hw)
    · exact hq c' hc'

end Writes

end Tanix
