/-
# `Tanix.Wm.Order` — the windows fill the first slots, in their order

The handlers as they run where 32-bit arithmetic wraps around, so that every request is
answered.  Requests come from tasks, whose ids are not 0, and the slots without a window belong
to the task 0, so nobody closes one of these.
-/
import Tanix.Wm.Server

namespace Tanix.Wm

open List

namespace State

variable (s : State)

def createWrapping (src w h canvas pages : Nat) (title : List UInt8) : Outcome :=
  match if ValidWindow w h canvas pages then findSlot s.windows 0 else none with
  | none => ⟨s, some .refused, false⟩
  | some slot =>
    let exact := s.newWindow src w h canvas title
    let wd := { exact with y := exact.y % 2 ^ 32 }
    ⟨{ s with
      windows := markAllDirty (s.windows.set slot wd)
      nextId := (s.nextId + 1) % 2 ^ 32
      created := (s.created + 1) % 2 ^ 32 }, some (.created wd.id wd.x wd.y w h), true⟩

def serveWrapping : Request → Outcome
  | .create src w h canvas pages title => s.createWrapping src w h canvas pages title
  | .flush src id => s.serveFlush src id
  | .tick src id px py pb => s.serveTick src id px py pb
  | .close src id => s.serveClose src id

/-- The state after a sequence of requests. -/
def runWrapping (screenW screenH : Nat) (rs : List Request) : State :=
  rs.foldl (fun s r => (s.serveWrapping r).after) (start screenW screenH)

variable {s} {live : List Window} {r : Request}

theorem Leaves.wrapped (h : Tidy s live) (hnext : s.nextId + [r].countP Request.isCreate < 2 ^ 32) :
    ∃ live', Leaves s live r (s.serveWrapping r).after live' := by
  refine Leaves.after ?_
  cases r with
  | create src w ht canvas pages title =>
    rw [serveWrapping, createWrapping]
    split
    · exact Leaves.same h rfl rfl
    · next slot hslot =>
      obtain ⟨hvalid, hslot⟩ := Option.ite_none_right_eq_some.mp hslot
      exact Leaves.added h hslot hvalid rfl rfl rfl rfl (Nat.mod_eq_of_lt hnext)
  | flush src id => exact Leaves.served h (State.served h.arranged rfl)
  | tick src id px py pb => exact Leaves.served h (State.served h.arranged rfl)
  | close src id => exact Leaves.served h (State.served h.arranged rfl)

section Runs

variable (screenW screenH : Nat) (rs : List Request)

theorem runWrapping_concat (r : Request) :
    runWrapping screenW screenH (rs ++ [r]) = ((runWrapping screenW screenH rs).serveWrapping r).after :=
  foldl_concat ..

theorem tidy_runWrapping (hfew : rs.countP Request.isCreate < 2 ^ 32 - 1) :
    ∃ live, Tidy (runWrapping screenW screenH rs) live ∧ Vacant (runWrapping screenW screenH rs).windows ∧
      (runWrapping screenW screenH rs).nextId ≤ 1 + rs.countP Request.isCreate := by
  induction rs using List.reverseRecOn with
  | nil =>
    refine ⟨[], tidy_start screenW screenH, ?_, Nat.le_refl 1⟩
    intro w hw _
    rw [eq_of_mem_replicate hw]
    rfl
  | append_singleton rs r ih =>
    rw [countP_append] at hfew ⊢
    obtain ⟨live, htidy, hv, hnext⟩ := ih (by omega)
    obtain ⟨live', hleaves⟩ := Leaves.wrapped (r := r) htidy (by omega)
    have hgiven := hleaves.given
    rw [runWrapping_concat]
    exact ⟨live', hleaves.tidy, hleaves.vacant hv, by omega⟩

end Runs

end State

end Tanix.Wm
