/-
# `Tanix.Ipc.Invariant` — parked calls and matched sequences

Two facts about the rendezvous machine, each with the few ways a step can
move it.

`Parked` ties the encodings of a waiting call together: a slot waits for at
most one reason, it is Blocked while it does, it is inside the call that the
reason records (`Holds`), and conversely a call that went through
`switch_away` and is still Blocked has its reason.  A step either parks one
caller (`Parked.park`), or releases one waiter (`Parked.release`), or does
neither.

`Matched` compares the sequences: for every sender `i` and destination `d`,
what receives of `d` were handed from `i` is, message by message and in order,
what sends of `i` to `d` completed.  A release appends to both
(`Matched.transfer`), everything else appends to neither (`Matched.same`).
-/
import Tanix.Ipc.Machine

namespace Tanix

open Scheduler List

/-- The call `c` of slot `i` is recorded at reason `r`. -/
def Holds (s : Scheduler) (i : Slot) (c : IpcCall) : Reason → Prop
  | .recv => ∃ t, s.tasks i = some t ∧ c = .receive t.recvFilter t.recvBuf
  | .sleep => False
  | .staged => ∃ t dst msg, s.tasks i = some t ∧ t.sendFullWait = some ⟨dst, t.id, msg⟩ ∧
      c = .send dst msg
  | .queued d q => ∃ t u msg, s.tasks i = some t ∧ s.tasks d = some u ∧
      u.pendingSenders q = some ⟨t.id, msg⟩ ∧ c = .send u.id msg

/-- A reason records one call. -/
theorem Holds.call_unique {s : Scheduler} {i : Slot} {c c' : IpcCall} {r : Reason}
    (h : Holds s i c r) (h' : Holds s i c' r) : c' = c := by
  cases r with
  | sleep => exact h.elim
  | recv =>
    obtain ⟨t, ht, rfl⟩ := h
    obtain ⟨t', ht', rfl⟩ := h'
    rw [ht] at ht'
    cases ht'
    rfl
  | staged =>
    obtain ⟨t, dst, msg, ht, hs, rfl⟩ := h
    obtain ⟨t', dst', msg', ht', hs', rfl⟩ := h'
    rw [ht] at ht'
    cases ht'
    cases hs.symm.trans hs'
    rfl
  | queued d q =>
    obtain ⟨t, u, msg, ht, hu, hp, rfl⟩ := h
    obtain ⟨t', u', msg', ht', hu', hp', rfl⟩ := h'
    rw [ht] at ht'
    cases ht'
    rw [hu] at hu'
    cases hu'
    cases hp.symm.trans hp'
    rfl

/-- A write keeps a record that stands neither in the fields nor in the queue place it changes. -/
theorem Holds.modify {s : Scheduler} {k k₀ : Slot} {c : IpcCall} {r : Reason} {f : Task → Task}
    (hid : ∀ t, (f t).id = t.id)
    (hown : k ≠ k₀ ∨ ∀ t, (f t).recvFilter = t.recvFilter ∧ (f t).recvBuf = t.recvBuf ∧
      (f t).sendFullWait = t.sendFullWait)
    (hqueue : ∀ d q, r = .queued d q → d ≠ k₀ ∨ ∀ t, (f t).pendingSenders q = t.pendingSenders q)
    (h : Holds s k c r) : Holds (s.modify k₀ f) k c r := by
  have hread : ∀ i t, s.tasks i = some t →
      (s.modify k₀ f).tasks i = some (if i = k₀ then f t else t) := by
    intro i t ht
    rw [modify_tasks]
    split
    · rename_i hi
      rw [← hi, ht]
      rfl
    · exact ht
  have hids : ∀ i t, (if i = k₀ then f t else t).id = t.id := by
    intro i t
    split
    · exact hid t
    · rfl
  cases r with
  | sleep => exact h
  | recv =>
    obtain ⟨t, ht, hc⟩ := h
    refine ⟨_, hread k t ht, ?_⟩
    rw [hc]
    split
    · rename_i hk
      obtain ⟨h₁, h₂, _⟩ := hown.resolve_left (not_not.mpr hk) t
      rw [h₁, h₂]
    · rfl
  | staged =>
    obtain ⟨t, dst, msg, ht, hs, hc⟩ := h
    refine ⟨_, dst, msg, hread k t ht, ?_, hc⟩
    rw [hids, ← hs]
    split
    · rename_i hk
      exact (hown.resolve_left (not_not.mpr hk) t).2.2
    · rfl
  | queued d q =>
    obtain ⟨t, u, msg, ht, hu, hp, hc⟩ := h
    refine ⟨_, _, msg, hread k t ht, hread d u hu, ?_, ?_⟩
    · rw [hids, ← hp]
      split
      · rename_i hd
        exact (hqueue d q rfl).resolve_left (not_not.mpr hd) u
      · rfl
    · rw [hids, hc]

theorem Holds.setState {s : Scheduler} {k i : Slot} {c : IpcCall} {r : Reason} {st : TaskState}
    (h : Holds s k c r) : Holds (s.setState i st) k c r :=
  h.modify (fun _ => rfl) (Or.inr fun _ => ⟨rfl, rfl, rfl⟩) fun _ _ _ => Or.inr fun _ => rfl

namespace Ipc

/-! ## Parked calls -/

structure Parked (m : Ipc) : Prop where
  ids : m.sched.UniqueIds
  occupied : ∀ i, m.calls i ≠ none → ∃ t, m.sched.tasks i = some t
  blocked : ∀ i r, Waits m.sched i r → m.sched.stateIs i .blocked = true
  unique : ∀ i r r', Waits m.sched i r → Waits m.sched i r' → r = r'
  holds : ∀ i r, Waits m.sched i r → ∃ c, m.calls i = some ⟨c, none⟩ ∧ Holds m.sched i c r
  waits : ∀ i c, m.calls i = some ⟨c, none⟩ → m.sched.stateIs i .blocked = true →
    ∃ r, Waits m.sched i r
  sources : ∀ d u q p, m.sched.tasks d = some u → u.pendingSenders q = some p →
    ∃ i t, m.sched.tasks i = some t ∧ t.id = p.src
  /-- a receive that found its message at once returns its source -/
  value : ∀ i filter out r, m.calls i = some ⟨.receive filter out, some r⟩ →
    r = (m.mem i out).src.toInt32

theorem Initial.parked {m : Ipc} (h : m.Initial) : m.Parked := by
  have hno : ∀ i r, ¬ Waits m.sched i r := by
    intro i r hw
    cases r with
    | recv =>
      obtain ⟨t, ht, hr⟩ := hw
      exact absurd hr (by simp [Task.waitsOn, (h.quiet i t ht).1])
    | sleep =>
      obtain ⟨t, ht, hr⟩ := hw
      exact hr (h.quiet i t ht).2.1
    | staged =>
      obtain ⟨t, ht, hr⟩ := hw
      exact hr (h.quiet i t ht).2.2.1
    | queued d q =>
      obtain ⟨_, u, p, _, hu, hp, _⟩ := hw
      rw [(h.quiet d u hu).2.2.2 q] at hp
      cases hp
  refine ⟨h.ids, ?_, ?_, ?_, ?_, ?_, ?_, ?_⟩
  · intro i hi
    exact absurd (h.idle i) hi
  · intro i r hw
    exact absurd hw (hno i r)
  · intro i r _ hw
    exact absurd hw (hno i r)
  · intro i r hw
    exact absurd hw (hno i r)
  · intro i c hc
    rw [h.idle i] at hc
    cases hc
  · intro d u q p hu hp
    rw [(h.quiet d u hu).2.2.2 q] at hp
    cases hp
  · intro i filter out r hc
    rw [h.idle i] at hc
    cases hc

/-- Whoever is inside a call after a call of `me` has a task. -/
theorem Parked.callers {m m' : Ipc} (h : m.Parked) {me : Slot} (hids : SameIds m.sched m'.sched)
    (hocc : ∃ t, m.sched.tasks me = some t) (hother : ∀ k, k ≠ me → m'.calls k = m.calls k)
    (k : Slot) (hk : m'.calls k ≠ none) : ∃ t, m'.sched.tasks k = some t := by
  have hold : ∃ t, m.sched.tasks k = some t := by
    rcases eq_or_ne k me with rfl | hkm
    · exact hocc
    · exact h.occupied k (hother k hkm ▸ hk)
  obtain ⟨t, ht⟩ := hold
  exact (hids.fwd ht).imp fun _ h => h.1

/-- A caller parks itself: it gains one reason and blocks, nothing else moves. -/
theorem Parked.park {m m' : Ipc} (h : m.Parked) {me : Slot} {c : IpcCall} {r : Reason}
    (hids : SameIds m.sched m'.sched) (hocc : ∃ t, m.sched.tasks me = some t)
    (hfree : ∀ r', ¬ Waits m.sched me r')
    (hwaits : ∀ k r', Waits m'.sched k r' ↔ Waits m.sched k r' ∨ (k = me ∧ r' = r))
    (hkeep : ∀ k c r', Waits m.sched k r' → Holds m.sched k c r' → Holds m'.sched k c r')
    (hnew : Holds m'.sched me c r)
    (hstate : ∀ k, k ≠ me → m'.sched.stateIs k .blocked = m.sched.stateIs k .blocked)
    (hme : m'.sched.stateIs me .blocked = true)
    (hsrc : Sources m.sched m'.sched)
    (hcalls : m'.calls = Function.update m.calls me (some ⟨c, none⟩)) (hmem : m'.mem = m.mem) :
    m'.Parked := by
  have hother : ∀ k, k ≠ me → m'.calls k = m.calls k := by
    intro k hk
    rw [hcalls, Function.update_of_ne hk]
  have hself : m'.calls me = some ⟨c, none⟩ := by rw [hcalls, Function.update_self]
  refine ⟨hids.uniqueIds h.ids, h.callers hids hocc hother, ?_, ?_, ?_, ?_, ?_, ?_⟩
  · intro k r' hw
    rcases (hwaits k r').mp hw with hw | ⟨rfl, _⟩
    · have hkm : k ≠ me := fun hkm => hfree r' (hkm ▸ hw)
      rw [hstate k hkm]
      exact h.blocked k r' hw
    · exact hme
  · intro k r₁ r₂ h₁ h₂
    rcases (hwaits k r₁).mp h₁ with h₁ | ⟨rfl, rfl⟩
    · rcases (hwaits k r₂).mp h₂ with h₂ | ⟨rfl, rfl⟩
      · exact h.unique k r₁ r₂ h₁ h₂
      · exact absurd h₁ (hfree r₁)
    · rcases (hwaits k r₂).mp h₂ with h₂ | ⟨_, rfl⟩
      · exact absurd h₂ (hfree r₂)
      · rfl
  · intro k r' hw
    rcases (hwaits k r').mp hw with hw | ⟨rfl, rfl⟩
    · have hkm : k ≠ me := fun hkm => hfree r' (hkm ▸ hw)
      obtain ⟨c', hc', hh⟩ := h.holds k r' hw
      exact ⟨c', by rw [hother k hkm, hc'], hkeep k c' r' hw hh⟩
    · exact ⟨c, hself, hnew⟩
  · intro k c' hc' hb
    by_cases hkm : k = me
    · exact ⟨r, (hwaits k r).mpr (Or.inr ⟨hkm, rfl⟩)⟩
    · rw [hother k hkm] at hc'
      rw [hstate k hkm] at hb
      obtain ⟨r', hr'⟩ := h.waits k c' hc' hb
      exact ⟨r', (hwaits k r').mpr (Or.inl hr')⟩
  · intro d u q p hu hp
    exact hids.known (hsrc d u q p hu hp)
  · intro k filter out v hc'
    by_cases hkm : k = me
    · subst hkm
      rw [hself] at hc'
      cases hc'
    · rw [hother k hkm] at hc'
      rw [hmem]
      exact h.value k filter out v hc'

/-- A call of `me` returns and releases the waiter `j` from its one reason. -/
theorem Parked.release {m m' : Ipc} (h : m.Parked) {me j : Slot} {c : IpcCall} {ret : Int32}
    {r : Reason} (hids : SameIds m.sched m'.sched) (hocc : ∃ t, m.sched.tasks me = some t)
    (hfree : ∀ r', ¬ Waits m.sched me r') (hj : Waits m.sched j r)
    (hwaits : ∀ k r', Waits m'.sched k r' ↔ Waits m.sched k r' ∧ ¬ (k = j ∧ r' = r))
    (hkeep : ∀ k c r', Waits m'.sched k r' → Holds m.sched k c r' → Holds m'.sched k c r')
    (hstate : ∀ k, k ≠ j → m'.sched.stateIs k .blocked = m.sched.stateIs k .blocked)
    (hjst : m'.sched.stateIs j .blocked = false)
    (hsrc : Sources m.sched m'.sched)
    (hcalls : m'.calls = Function.update m.calls me (some ⟨c, some ret⟩))
    (hvalue : ∀ i filter out v, m'.calls i = some ⟨.receive filter out, some v⟩ →
      v = (m'.mem i out).src.toInt32) :
    m'.Parked := by
  have hother : ∀ k, k ≠ me → m'.calls k = m.calls k := by
    intro k hk
    rw [hcalls, Function.update_of_ne hk]
  have hself : m'.calls me = some ⟨c, some ret⟩ := by rw [hcalls, Function.update_self]
  refine ⟨hids.uniqueIds h.ids, h.callers hids hocc hother, ?_, ?_, ?_, ?_, ?_, hvalue⟩
  · intro k r' hw
    obtain ⟨hw, hnot⟩ := (hwaits k r').mp hw
    -- the one slot whose state changed has lost its only reason
    have hkj : k ≠ j := by
      rintro rfl
      exact hnot ⟨rfl, h.unique k r' r hw hj⟩
    rw [hstate k hkj]
    exact h.blocked k r' hw
  · intro k r₁ r₂ h₁ h₂
    exact h.unique k r₁ r₂ ((hwaits k r₁).mp h₁).1 ((hwaits k r₂).mp h₂).1
  · intro k r' hw
    have hw₀ := ((hwaits k r').mp hw).1
    have hkm : k ≠ me := fun hkm => hfree r' (hkm ▸ hw₀)
    obtain ⟨c', hc', hh⟩ := h.holds k r' hw₀
    exact ⟨c', by rw [hother k hkm, hc'], hkeep k c' r' hw hh⟩
  · intro k c' hc' hb
    have hkm : k ≠ me := by
      rintro rfl
      rw [hself] at hc'
      cases hc'
    have hkj : k ≠ j := by
      rintro rfl
      rw [hjst] at hb
      cases hb
    rw [hother k hkm] at hc'
    rw [hstate k hkj] at hb
    obtain ⟨r', hr'⟩ := h.waits k c' hc' hb
    exact ⟨r', (hwaits k r').mpr ⟨hr', fun hk => hkj hk.1⟩⟩
  · intro d u q p hu hp
    exact hids.known (hsrc d u q p hu hp)

/-! ## The two sequences -/

structure Matched (m : Ipc) : Prop where
  matched : ∀ i t d u, m.sched.tasks i = some t → m.sched.tasks d = some u →
    ((m.taken d).filter (·.2.src = t.id)).map (·.2)
      = ((m.completed i).filter (·.1 = u.id)).map (·.2.stamp t.id)
  filtered : ∀ d x, x ∈ m.taken d → accepts x.1 x.2.src = true
  genuine : ∀ d x, x ∈ m.taken d → ∃ i t, m.sched.tasks i = some t ∧ t.id = x.2.src
  addressed : ∀ i x, x ∈ m.completed i → ∃ d u, m.sched.tasks d = some u ∧ u.id = x.1
  result : ∀ i filter msg ret, Obs.received i filter msg ret ∈ m.log → ret = msg.src.toInt32

/-- A step that hands nothing over. -/
theorem Matched.same {m m' : Ipc} (h : m.Matched) (hids : SameIds m.sched m'.sched)
    (htaken : ∀ k, m'.taken k = m.taken k) (hcompleted : ∀ k, m'.completed k = m.completed k)
    (hresult : ∀ i filter msg ret, Obs.received i filter msg ret ∈ m'.log →
      ret = msg.src.toInt32) : m'.Matched := by
  refine ⟨?_, ?_, ?_, ?_, hresult⟩
  · intro i t d u ht hu
    obtain ⟨t₀, ht₀, hti⟩ := hids.bwd ht
    obtain ⟨u₀, hu₀, hui⟩ := hids.bwd hu
    rw [htaken, hcompleted, ← hti, ← hui]
    exact h.matched i t₀ d u₀ ht₀ hu₀
  · intro d x hx
    rw [htaken] at hx
    exact h.filtered d x hx
  · intro d x hx
    rw [htaken] at hx
    exact hids.known (h.genuine d x hx)
  · intro i x hx
    rw [hcompleted] at hx
    exact hids.known (h.addressed i x hx)

/-- A step that hands one message of slot `j` to slot `d`. -/
theorem Matched.transfer {m m' : Ipc} (h : m.Matched) (hu : m.sched.UniqueIds)
    (hids : SameIds m.sched m'.sched) {j d : Slot} {t u : Task} {filter : Int32}
    (hj : m.sched.tasks j = some t) (hd : m.sched.tasks d = some u)
    (haccepts : accepts filter t.id = true) (msg : Message)
    (htaken : ∀ k, m'.taken k = m.taken k ++ if k = d then [(filter, msg.stamp t.id)] else [])
    (hcompleted : ∀ k, m'.completed k = m.completed k ++ if k = j then [(u.id, msg)] else [])
    (hlog : m'.log = m.log) : m'.Matched := by
  refine ⟨?_, ?_, ?_, ?_, ?_⟩
  · intro i t' d' u' ht' hu'
    obtain ⟨t₀, ht₀, hti⟩ := hids.bwd ht'
    obtain ⟨u₀, hu₀, hui⟩ := hids.bwd hu'
    have hold := h.matched i t₀ d' u₀ ht₀ hu₀
    have hsender : t.id = t'.id ↔ i = j := by
      constructor
      · intro he
        exact hu i j t₀ t ht₀ hj (hti.trans he.symm)
      · rintro rfl
        rw [hj] at ht₀
        cases ht₀
        exact hti
    have hreceiver : u.id = u'.id ↔ d' = d := by
      constructor
      · intro he
        exact hu d' d u₀ u hu₀ hd (hui.trans he.symm)
      · rintro rfl
        rw [hd] at hu₀
        cases hu₀
        exact hui
    rw [hti, hui] at hold
    rw [htaken, hcompleted, filter_append, filter_append, map_append,
      map_append, hold]
    congr 1
    -- the new message shows on both sides exactly when the pair is (j, d)
    by_cases hi : i = j
    · by_cases hdd : d' = d
      · simp [hi, hdd, hsender.mpr hi, hreceiver.mpr hdd, Message.stamp]
      · simp [hi, hdd, mt hreceiver.mp hdd]
    · by_cases hdd : d' = d
      · simp [hi, hdd, mt hsender.mp hi, Message.stamp]
      · simp [hi, hdd]
  · intro k x hx
    rw [htaken] at hx
    rcases mem_append.mp hx with hx | hx
    · exact h.filtered k x hx
    · split at hx
      · obtain rfl := mem_singleton.mp hx
        exact haccepts
      · cases hx
  · intro k x hx
    rw [htaken] at hx
    rcases mem_append.mp hx with hx | hx
    · exact hids.known (h.genuine k x hx)
    · split at hx
      · obtain rfl := mem_singleton.mp hx
        exact hids.known ⟨j, t, hj, rfl⟩
      · cases hx
  · intro k x hx
    rw [hcompleted] at hx
    rcases mem_append.mp hx with hx | hx
    · exact hids.known (h.addressed k x hx)
    · split at hx
      · obtain rfl := mem_singleton.mp hx
        exact hids.known ⟨d, u, hd, rfl⟩
      · cases hx
  · rw [hlog]
    exact h.result

end Ipc

end Tanix
