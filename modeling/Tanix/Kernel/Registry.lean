/-
# `Tanix.Kernel.Registry` — names, regions, and whose program a spawn overwrites

Every server has one region, fixed by its name in `SERVER_BASES`, and
`spawn_by_name_locked` zeroes and reloads that region each time.  What a task is
given when it is made (its id, its name, the base of its image) never changes
afterwards (`SameCores`), so in every state that can be reached a task's image lies
where its name says (`Registered`).  Regions of different names are apart, hence the
program a load overwrites is exactly that of the other tasks of the same name.

Nothing here depends on who runs: the results hold in every run from boot, whatever
the wake hint.
-/
import Tanix.Kernel.Boot
import Tanix.Kernel.Stable

namespace Tanix

open Scheduler

/-! ## Regions -/

/-- Two server regions share an address. -/
def RegionsMeet (base base' : Nat) : Prop :=
  base < base' + serverRamSize ∧ base' < base + serverRamSize

theorem serverBases_apart : ∀ p ∈ serverBases, ∀ q ∈ serverBases,
    p.2 < q.2 + serverRamSize → q.2 < p.2 + serverRamSize → p.1 = q.1 := by
  decide

theorem serverBases_high : ∀ p ∈ serverBases, serverRamSize ≤ p.2 := by
  decide

theorem serverLinkBase_cases (m : Machine) (name : String) :
    m.serverLinkBase name = 0 ∨
      ∃ p ∈ serverBases, p.1 = name ∧ m.serverLinkBase name = p.2 + m.baseShift := by
  unfold Machine.serverLinkBase
  cases hp : serverBases.find? fun p => p.1 == name with
  | none => exact Or.inl rfl
  | some p =>
    have hname := List.find?_some hp
    exact Or.inr ⟨p, List.mem_of_find?_eq_some hp, beq_iff_eq.mp hname, rfl⟩

/-- A region that exists is met by the region of its own name alone. -/
theorem regionsMeet_iff (m : Machine) {name name' : String} (h : m.serverLinkBase name' ≠ 0) :
    RegionsMeet (m.serverLinkBase name) (m.serverLinkBase name') ↔ name = name' := by
  obtain ⟨q, hq, rfl, hbase'⟩ := (serverLinkBase_cases m name').resolve_left h
  constructor
  · rintro ⟨hlo, hhi⟩
    rcases serverLinkBase_cases m name with h0 | ⟨p, hp, rfl, hbase⟩
    · have hhigh := serverBases_high q hq
      rw [h0, hbase'] at hhi
      omega
    · rw [hbase, hbase'] at hlo hhi
      exact serverBases_apart p hp q hq (by omega) (by omega)
  · rintro rfl
    exact ⟨Nat.lt_add_of_pos_right (by decide), Nat.lt_add_of_pos_right (by decide)⟩

/-! ## What a task keeps -/

/-- What a task is given once and for all. -/
def Task.core (t : Task) : UInt32 × String × Nat :=
  (t.id, t.name, t.imageBase)

structure SameCores (s s' : Scheduler) : Prop where
  cores : ∀ i, (s'.tasks i).map Task.core = (s.tasks i).map Task.core
  nextId : s'.nextId = s.nextId

section Cores

variable {s s' : Scheduler}

variable (s)

theorem SameCores.refl : SameCores s s :=
  ⟨fun _ => rfl, rfl⟩

theorem sameCores_modify (i : Slot) {f : Task → Task} (hf : ∀ t, (f t).core = t.core) :
    SameCores s (s.modify i f) :=
  ⟨map_modify hf, rfl⟩

theorem sameCores_setState (i : Slot) (st : TaskState) : SameCores s (s.setState i st) :=
  sameCores_modify s i fun _ => rfl

theorem untouched_core : Untouched Task.core :=
  ⟨fun _ _ => rfl, fun _ => rfl, fun _ _ _ => rfl, fun _ _ => rfl, fun _ => rfl, fun _ _ _ => rfl⟩

theorem sameCores_sysSend (me : Slot) (dst : UInt32) (msg : Message) :
    SameCores s (sysSend s me dst msg).sched :=
  ⟨untouched_core.map_sysSend s me dst msg, sysSend_nextId s me dst msg⟩

theorem sameCores_sysReceive (me : Slot) (filter : Int32) (out : Nat) :
    SameCores s (sysReceive s me filter out).sched :=
  ⟨untouched_core.map_sysReceive s me filter out, sysReceive_nextId s me filter out⟩

variable {s}

theorem SameCores.ids (h : SameCores s s') : SameIds s s' := by
  intro i
  have hc := congrArg (Option.map Prod.fst) (h.cores i)
  rw [Option.map_map, Option.map_map] at hc
  exact hc

end Cores

/-- Every image lies where its name says. -/
def Placed (b : Board) (s : Scheduler) : Prop :=
  ∀ i t, s.tasks i = some t → t.imageBase = b.machine.serverLinkBase t.name

/-- Ids are in order, and every image is in its place. -/
structure Registered (b : Board) (s : Scheduler) : Prop extends Numbered s where
  placed : Placed b s

section Registered

variable {b : Board} {s s' : Scheduler}

theorem Registered.same (h : Registered b s) (hs : SameCores s s') : Registered b s' := by
  refine ⟨h.of_same hs.ids hs.nextId, fun i t' ht' => ?_⟩
  have hcores := hs.cores i
  rw [ht'] at hcores
  obtain ⟨t, ht, hcore⟩ := Option.map_eq_some_iff.mp hcores.symm
  obtain ⟨-, hname, hbase⟩ : t.id = t'.id ∧ t.name = t'.name ∧ t.imageBase = t'.imageBase := by
    simpa [Task.core] using hcore
  rw [← hname, ← hbase]
  exact h.placed i t ht

theorem Registered.spawned (h : Registered b s) {i : Slot} {t : Task} (hi : s.tasks i = none)
    (hid : t.id = s.nextId) (ht : t.imageBase = b.machine.serverLinkBase t.name) :
    Registered b (spawnedAt s i t) := by
  refine ⟨h.toNumbered.spawned hi hid, fun j u hu => ?_⟩
  rcases spawnedAt_some hu with ⟨-, rfl⟩ | ⟨-, hu⟩
  · exact ht
  · exact h.placed j u hu

end Registered

namespace Kernel

variable {name : String}

/-! ## Calls -/

section Calls

variable {b : Board} {k k' : Kernel} {c : Cpu} {call : Call}

theorem Kills.sameCores {pid : UInt32} {i : Slot} (h : Kills b k c pid i k') :
    SameCores k.sched k'.sched := by
  cases h <;> exact sameCores_modify k.sched i fun _ => rfl

theorem Retires.sameCores (h : Retires b k c name k') : SameCores k.sched k'.sched := by
  cases h with
  | nobody => exact .refl _
  | killed t i _ hkill => exact hkill.sameCores

theorem registered_spawnByName (h : Registered b k.sched) {r : Int32}
    (hs : k.spawnByName b name = .ok (k', r)) : Registered b k'.sched := by
  cases spawnByName_ok h.freshId hs with
  | refused => exact h
  | spawned ram i ttbr0 bootPage rs hi => exact h.spawned (freeSlot_some hi).2 rfl rfl

/-- What a task keeps, a step keeps, apart from the task that a spawn makes. -/
theorem cores_step {P : Scheduler → Prop} (hsame : ∀ {s s'}, P s → SameCores s s' → P s')
    (h : P k.sched) {e : Event} (hspawn : ∀ c call name (k₁ k₂ : Kernel) r,
      e = .syscall c call → call.spawns = some name → SameCores k.sched k₁.sched →
      k₁.spawnByName b name = .ok (k₂, r) → P k₂.sched)
    (hs : Step b k e k') : P k'.sched := by
  have hstable : Stable fun s _ => P s :=
    { hint := fun _ _ _ h => hsame h ⟨fun _ => rfl, rfl⟩
      state := fun s _ i st _ h => hsame h (sameCores_setState s i st)
      wake := fun _ _ now h => hsame h ⟨map_wakeSleepers (fun _ => rfl) now, rfl⟩
      inert := fun s _ i _ hf h => hsame h (sameCores_modify s i fun _ => by cases hf <;> rfl) }
  refine stable_step hstable ⟨fun _ => h, ?_, ?_, ?_, fun _ _ _ => h⟩ hs
  · rintro c call k₁ rfl hb
    cases hb.does with
    | quiet => exact h
    | send dst msg => exact hsame h (sameCores_sysSend _ _ _ _)
    | receive filter out => exact hsame h (sameCores_sysReceive _ _ _ _)
    | regions => exact hsame h (sameCores_modify _ _ fun _ => rfl)
    | kills _ _ _ _ hk => exact hsame h hk.sameCores
    | spawns _ name r hcall _ hk => exact hspawn c _ name k _ r rfl hcall (.refl _) hk
    | respawns name _ _ r _ hk hs => exact hspawn c _ name _ _ r rfl rfl hk.sameCores hs
  · rintro c call k₁ pc rfl hp
    cases hp with
    | send dst msg => exact hsame h (sameCores_sysSend _ _ _ _)
    | receive filter out => exact hsame h (sameCores_sysReceive _ _ _ _)
    | sleep ms => exact hsame h (sameCores_modify _ _ fun _ => rfl)
    | exit => exact hsame h (sameCores_setState _ _ _)
  · intro c _ _
    exact hsame h (sameCores_modify _ _ fun _ => rfl)

theorem registered_step (h : Registered b k.sched) {e : Event} (hs : Step b k e k') :
    Registered b k'.sched :=
  cores_step Registered.same h
    (fun _ _ _ _ _ _ _ _ hcores hspawn => registered_spawnByName (h.same hcores) hspawn) hs

end Calls

/-! ## Loads -/

/-- The state in which a call comes to zero and reload the region of `name`. -/
inductive Loads (b : Board) (k : Kernel) (c : Cpu) : Call → Kernel → String → Prop
  | spawn (name : String) (img : Image) (himg : b.bins name = some img)
      (hbase : b.machine.serverLinkBase name ≠ 0) : Loads b k c (.spawn (some name)) k name
  | exec (name : String) (img : Image) (k₁ : Kernel) (hretire : k.retire b c name = .ok k₁)
      (himg : b.bins name = some img) (hbase : b.machine.serverLinkBase name ≠ 0) :
      Loads b k c (.exec (some name)) k₁ name

/-- A task that is live, or current on some CPU, has its image in the region of `name`. -/
def InUse (b : Board) (k : Kernel) (name : String) : Prop :=
  ∃ i t, k.sched.tasks i = some t ∧
    RegionsMeet t.imageBase (b.machine.serverLinkBase name) ∧
    (t.state ≠ .zombie ∨ ∃ c, k.cur c = i)

/-- What a call that loads must find: `spawn`, no task of the name live or current; `exec`, at most
one live task of the name, and none current. -/
def Vacant (k : Kernel) : Call → Prop
  | .spawn (some name) => ∀ i t, k.sched.tasks i = some t → t.name = name →
      t.state = .zombie ∧ ∀ c, k.cur c ≠ i
  | .exec (some name) => ∀ i t, k.sched.tasks i = some t → t.name = name →
      (∀ c, k.cur c ≠ i) ∧ (t.state ≠ .zombie → ∀ j u, k.sched.tasks j = some u → u.name = name →
        u.state ≠ .zombie → j = i)
  | _ => True

theorem liveByName_some {s : Scheduler} {t : Task} (h : liveByName s name = some t) :
    ∃ i, s.tasks i = some t ∧ t.name = name ∧ t.state ≠ .zombie := by
  obtain ⟨i, -, hi⟩ := List.exists_of_findSome?_eq_some h
  obtain ⟨u, hu, hif⟩ := Option.bind_eq_some_iff.mp hi
  split at hif
  · rename_i hc
    cases hif
    simp only [Bool.and_eq_true, beq_iff_eq, bne_iff_ne] at hc
    exact ⟨i, hu, hc⟩
  · cases hif

/-- What `sys_exec` has done to the table when it comes to the load. -/
theorem retire_cases {b : Board} {k k₁ : Kernel} {c : Cpu} (h : Numbered k.sched)
    (hr : k.retire b c name = .ok k₁) : k₁.cpus = k.cpus ∧
      ((k₁.sched = k.sched ∧ ∀ i t, k.sched.tasks i = some t → t.name = name → t.state = .zombie) ∨
      ∃ i t freed, k.sched.tasks i = some t ∧ t.name = name ∧ t.state ≠ .zombie ∧
        k₁.sched = k.sched.modify i (Task.killed freed)) := by
  cases retire_ok hr with
  | nobody hnone =>
    refine ⟨rfl, Or.inl ⟨rfl, fun i t ht hname => ?_⟩⟩
    cases hlive : liveByName k.sched name with
    | none =>
      have hi := List.findSome?_eq_none_iff.mp hlive i (List.mem_finRange i)
      rw [ht] at hi
      simpa [hname] using hi
    | some u =>
      obtain ⟨j, hu, -⟩ := liveByName_some hlive
      exact absurd rfl (taskIdx_none (hnone u hlive) j u hu)
  | killed t i hlive hkill =>
    obtain ⟨j, ht, hname, hz⟩ := liveByName_some hlive
    have hi := hkill.idx
    rw [taskIdx_eq h.ids ht] at hi
    cases hi
    cases hkill with
    | freed => exact ⟨rfl, Or.inr ⟨i, t, true, ht, hname, hz, rfl⟩⟩
    | kept => exact ⟨rfl, Or.inr ⟨i, t, false, ht, hname, hz, rfl⟩⟩

/-- The programs in the region of `name` are those of the tasks of this name. -/
theorem inUse_iff {b : Board} {k : Kernel} (h : Registered b k.sched)
    (hbase : b.machine.serverLinkBase name ≠ 0) : InUse b k name ↔
      ∃ i t, k.sched.tasks i = some t ∧ t.name = name ∧
        (t.state ≠ .zombie ∨ ∃ c, k.cur c = i) := by
  refine exists_congr fun i => exists_congr fun t => and_congr_right fun ht => ?_
  rw [h.placed i t ht, regionsMeet_iff b.machine hbase]

theorem vacant_spawn {b : Board} {k : Kernel} (h : Registered b k.sched)
    (hbase : b.machine.serverLinkBase name ≠ 0) :
    ¬ InUse b k name ↔ Vacant k (.spawn (some name)) := by
  rw [inUse_iff h hbase]
  constructor
  · intro hno i t ht hname
    refine ⟨not_not.mp fun hz => hno ⟨i, t, ht, hname, Or.inl hz⟩, fun c hc => ?_⟩
    exact hno ⟨i, t, ht, hname, Or.inr ⟨c, hc⟩⟩
  · rintro hv ⟨i, t, ht, hname, hlive | ⟨c, hc⟩⟩
    · exact hlive (hv i t ht hname).1
    · exact (hv i t ht hname).2 c hc

theorem vacant_exec {b : Board} {k k₁ : Kernel} {c : Cpu} (h : Registered b k.sched)
    (hbase : b.machine.serverLinkBase name ≠ 0) (hr : k.retire b c name = .ok k₁) :
    ¬ InUse b k₁ name ↔ Vacant k (.exec (some name)) := by
  have h₁ : Registered b k₁.sched := h.same (retire_ok hr).sameCores
  obtain ⟨hcpus, htable⟩ := retire_cases h.toNumbered hr
  have hcur : ∀ c, k₁.cur c = k.cur c := fun c => congrArg (fun f => CpuState.current (f c)) hcpus
  rw [inUse_iff h₁ hbase]
  simp only [hcur]
  rcases htable with ⟨hs, hdead⟩ | ⟨v, tv, freed, htv, hnamev, hlivev, hs⟩
  · -- nobody to retire: the table is the one found
    rw [hs]
    constructor
    · intro hno i t ht hname
      refine ⟨fun c hc => hno ⟨i, t, ht, hname, Or.inr ⟨c, hc⟩⟩, fun hlive => ?_⟩
      exact absurd (hdead i t ht hname) hlive
    · rintro hv ⟨i, t, ht, hname, hlive | ⟨c, hc⟩⟩
      · exact hlive (hdead i t ht hname)
      · exact (hv i t ht hname).1 c hc
  · rw [hs]
    constructor
    · intro hno i t ht hname
      -- a live task of the name is the one retired
      have honly : ∀ j u, k.sched.tasks j = some u → u.name = name → u.state ≠ .zombie → j = v := by
        intro j u hu hnameu hliveu
        by_contra hj
        exact hno ⟨j, u, by rw [modify_tasks_ne k.sched _ hj]; exact hu, hnameu, Or.inl hliveu⟩
      refine ⟨fun c hc => ?_, fun hlive j u hu hnameu hliveu => ?_⟩
      · rcases eq_or_ne i v with rfl | hi
        · refine hno ⟨i, t.killed freed, ?_, hname, Or.inr ⟨c, hc⟩⟩
          rw [modify_tasks_same, ht]
          rfl
        · exact hno ⟨i, t, by rw [modify_tasks_ne k.sched _ hi]; exact ht, hname, Or.inr ⟨c, hc⟩⟩
      · rw [honly j u hu hnameu hliveu, honly i t ht hname hlive]
    · rintro hv ⟨i, t', ht', hname, huse⟩
      obtain ⟨t, ht, rfl⟩ := modify_some ht'
      rcases eq_or_ne i v with rfl | hi
      · rw [if_pos rfl] at hname huse
        rcases huse with hlive | ⟨c, hc⟩
        · exact hlive rfl
        · exact (hv i t ht hname).1 c hc
      · rw [if_neg hi] at hname huse
        rcases huse with hlive | ⟨c, hc⟩
        · exact hi ((hv v tv htv hnamev).2 hlivev i t ht hname hlive)
        · exact (hv i t ht hname).1 c hc

/-! ## Runs -/

/-- In every state of every run from boot, a call that loads an image spares every live and every
current program exactly when it finds the name vacant. -/
theorem load_spares_programs_iff {b : Board} {n : Nat} {k₀ k : Kernel} {es : List Event}
    (hboot : Boot n k₀) (hplaced : Placed b k₀.sched)
    (hrun : LTS.Run (Step b) k₀ es k) {c : Cpu} {call : Call} {k₁ : Kernel} {name : String}
    (hload : Loads b k c call k₁ name) : ¬ InUse b k₁ name ↔ Vacant k call := by
  have hk : Registered b k.sched :=
    hrun.invariant (I := fun k => Registered b k.sched) (fun _ _ _ h hs => registered_step h hs)
      ⟨hboot.sound.toNumbered, hplaced⟩
  cases hload with
  | spawn _ _ _ hbase => exact vacant_spawn hk hbase
  | exec _ _ _ hretire _ hbase => exact vacant_exec hk hbase hretire

/-- The `sbsa-ref` machine with an image of four pages for every name. -/
def loadedBoard : Board :=
  { bareBoard with
    bins := fun name => some ⟨fun _ _ => 0, some (sbsaMachine.serverLinkBase name + 4 * pageSize)⟩ }

theorem placed_sbsaBoot : Placed loadedBoard sbsaBoot.sched := by
  have hall : ∀ i, (sbsaBoot.sched.tasks i).all
      (fun t => t.imageBase == loadedBoard.machine.serverLinkBase t.name) = true := by
    decide +kernel
  intro i t ht
  have hi := hall i
  rw [ht] at hi
  exact beq_iff_eq.mp hi

/-- `worker` has exited, and `net` spawns it again. -/
theorem load_spares_programs_worker : ∃ k, LTS.Run (Step loadedBoard) sbsaBoot [.enter, .restore 0] k ∧
    Loads loadedBoard k 0 (.spawn (some "worker")) k "worker" ∧ ¬ InUse loadedBoard k "worker" := by
  obtain ⟨k, hrun, hvacant⟩ := LTS.Run.exists_of_exec (next loadedBoard) step_iff_next.mpr sbsaBoot
    [.enter, .restore 0]
    (fun k => ∀ i, ∀ t ∈ k.sched.tasks i, t.name = "worker" → t.state = .zombie ∧ ∀ c, k.cur c ≠ i)
    (by decide +kernel)
  have hload : Loads loadedBoard k 0 (.spawn (some "worker")) k "worker" :=
    .spawn _ _ rfl (by decide +kernel)
  exact ⟨k, hrun, hload,
    (load_spares_programs_iff boot_sbsaBoot placed_sbsaBoot hrun hload).mpr hvacant⟩

/-- `net`, running on CPU 0, spawns `net`. -/
theorem spawn_overwrites_caller : ¬ ∀ (b : Board) (n : Nat) (k₀ k : Kernel) (es : List Event)
    (c : Cpu) (call : Call) (k₁ : Kernel) (name : String), Boot n k₀ → Placed b k₀.sched →
    LTS.Run (Step b) k₀ es k → (k.cpus c).mode = .user → Loads b k c call k₁ name →
    ¬ InUse b k₁ name := by
  intro hall
  obtain ⟨k, hrun, hp⟩ := LTS.Run.exists_of_exec (next loadedBoard) step_iff_next.mpr sbsaBoot
    [.enter, .restore 0]
    (fun k => ((k.cpus 0).mode = Mode.user ∧ k.cur 0 = 6) ∧ (k.sched.tasks 6).any fun t =>
      t.imageBase == loadedBoard.machine.serverLinkBase "net") (by decide +kernel)
  have hload : Loads loadedBoard k 0 (.spawn (some "net")) k "net" :=
    .spawn _ _ rfl (by decide +kernel)
  refine hall loadedBoard 10 sbsaBoot k _ 0 _ k "net" boot_sbsaBoot placed_sbsaBoot hrun hp.1.1
    hload ?_
  cases ht : k.sched.tasks 6 with
  | none =>
    rw [ht] at hp
    cases hp.2
  | some t =>
    rw [ht] at hp
    refine ⟨6, t, ht, ?_, Or.inr ⟨0, hp.1.2⟩⟩
    rw [beq_iff_eq.mp hp.2]
    exact ⟨Nat.lt_add_of_pos_right (by decide), Nat.lt_add_of_pos_right (by decide)⟩

end Kernel

end Tanix
