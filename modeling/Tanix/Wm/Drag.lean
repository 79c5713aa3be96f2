/-
# `Tanix.Wm.Drag` — which window a drag moves

A drag is a slot, a window is an id, and two requests move windows to other slots while the
slot of the drag stays: the press that starts a drag raises the window it hits, so the slot
belongs to another window then, and a close shifts every window above the closed one down.
`OnGrabbed` rules out just these: a title bar is pressed on the topmost window only, and what is
closed during a drag lies in the slot of the drag or above it.  Then the slot is the one of the
grabbed window in every state, and `Follows` holds of every request.
-/
import Tanix.Wm.Server

namespace Tanix.Wm.State

open List

/-- Only the grabbed window changes its place, and the drag does not outlive it. -/
structure Follows (s s' : State) : Prop where
  moved : ∀ w ∈ s.windows, ∀ w' ∈ s'.windows, w.id ≠ 0 → w'.id = w.id → (w'.x ≠ w.x ∨ w'.y ≠ w.y) →
    s.drag ≠ none ∧ s.grabbed = some w.id
  ended : ∀ id, s.grabbed = some id → (∀ w ∈ s'.windows, w.id ≠ id) → s'.drag = none

/-- The request names a slot of its sender. -/
def Owner (s : State) (src id : Nat) : Prop :=
  ∃ slot ∈ findSlot s.windows id, (at? s.windows slot).app = src

instance (s : State) (src id : Nat) : Decidable (s.Owner src id) :=
  inferInstanceAs (Decidable (∃ slot ∈ _, _))

def OnGrabbed (s : State) : Request → Prop
  | .tick src id px py pb =>
    s.Owner src id → s.drag = none → pb % 2 = 1 ∧ s.ptr.buttons % 2 = 0 →
      ∀ hit ∈ hitWindow s.windows px py, (at? s.windows hit).OnTitle px py → hit = liveCount s.windows - 1
  | .close src id =>
    s.Owner src id → id ≠ 0 ∧ ∀ d ∈ s.drag, ∀ slot ∈ findSlot s.windows id, d.slot ≤ slot
  | _ => True

instance (s : State) (r : Request) : Decidable (s.OnGrabbed r) :=
  match r with
  | .tick .. => inferInstanceAs (Decidable (_ → _ → _ → ∀ hit ∈ hitWindow _ _ _, _))
  | .close .. => inferInstanceAs (Decidable (_ → _ ∧ ∀ d ∈ _, ∀ slot ∈ findSlot _ _, _))
  | .create .. => isTrue trivial
  | .flush .. => isTrue trivial

/-- The slot of the drag is the one of the grabbed window. -/
structure Held (s : State) (live : List Window) : Prop where
  tidy : Tidy s live
  held : ∀ d, s.drag = some d → ∃ w, live[d.slot]? = some w ∧ s.grabbed = some w.id
  free : s.drag = none → s.grabbed = none

variable {s s' : State} {live live' : List Window}

variable {f : Window → Window}

theorem Held.map (h : Held s live) (hf : Flags f) :
    Held { s with windows := s.windows.map f } (live.map f) where
  tidy := h.tidy.map hf rfl rfl
  held d hd := by
    obtain ⟨w, hw, hgrabbed⟩ := h.held d hd
    refine ⟨f w, ?_, ?_⟩
    · rw [getElem?_map, hw]
      rfl
    · rw [hf.id_eq]
      exact hgrabbed
  free := h.free

theorem Follows.map (h : Follows s s') (hf : Flags f) :
    Follows s { s' with windows := s'.windows.map f } where
  moved w hw w' hw' hid hsame hpos := by
    obtain ⟨v, hv, rfl⟩ := List.mem_map.mp hw'
    rw [hf.id_eq] at hsame
    rw [hf.x_eq, hf.y_eq] at hpos
    exact h.moved w hw v hv hid hsame hpos
  ended id hid hgone := by
    refine h.ended id hid fun w hw => ?_
    have := hgone (f w) (List.mem_map_of_mem hw)
    rwa [hf.id_eq] at this

/-- No window has moved, from one table to the other, but the grabbed one. -/
def Still (s : State) (live live' : List Window) : Prop :=
  ∀ w' ∈ live', ∀ w ∈ live, w'.id = w.id →
    (w'.x = w.x ∧ w'.y = w.y) ∨ (s.drag ≠ none ∧ s.grabbed = some w.id)

/-- In terms of the windows of two arranged tables. -/
theorem follows_of_live (h : Tidy s live) (h' : Tidy s' live') (hstill : Still s live live')
    (hended : ∀ id, s.grabbed = some id → (∃ w ∈ live', w.id = id) ∨ s'.drag = none) : Follows s s' where
  moved w hw w' hw' hid hsame hpos := by
    have hw := h.arranged.mem_live hw hid
    have hw' := h'.arranged.mem_live hw' (by rw [hsame]; exact hid)
    rcases hstill w' hw' w hw hsame with ⟨hx, hy⟩ | hgrabbed
    · rcases hpos with hpos | hpos
      · exact absurd hx hpos
      · exact absurd hy hpos
    · exact hgrabbed
  ended id hid hgone := by
    rcases hended id hid with ⟨w, hw, hwid⟩ | hnone
    · exact absurd hwid (hgone w (h'.arranged.subset hw))
    · exact hnone

/-- A window that is where an old one of its id was has not moved. -/
theorem unmoved (h : Tidy s live) {w' u w : Window} (hu : u ∈ live) (hw : w ∈ live)
    (hid : w'.id = u.id) (hx : w'.x = u.x) (hy : w'.y = u.y) (hsame : w'.id = w.id) :
    w'.x = w.x ∧ w'.y = w.y := by
  obtain rfl := h.arranged.eq_of_id hu hw (hid.symm.trans hsame)
  exact ⟨hx, hy⟩

theorem still_self (h : Tidy s live) : Still s live live :=
  fun _ hw' _ hw hid => .inl (unmoved h hw' hw rfl rfl rfl hid)

theorem Still.map (h : Still s live live') (hf : Flags f) : Still s live (live'.map f) := by
  intro w' hw' w hw hid
  obtain ⟨u, hu, rfl⟩ := List.mem_map.mp hw'
  rw [hf.id_eq] at hid
  rw [hf.x_eq, hf.y_eq]
  exact h u hu w hw hid

/-- Nothing moves where every window is an old one, with other flags. -/
theorem still_of_flags (h : Tidy s live) (hf : Flags f) {rest : List Window}
    (hrest : rest ⊆ live) : Still s live (rest.map f) :=
  Still.map (fun w' hw' => still_self h w' (hrest hw')) hf

/-- The drag goes on, and its slot has kept its window. -/
theorem Held.carried (h : Held s live) (h' : Tidy s' live') (hdrag : s'.drag = s.drag)
    (hgrabbed : s'.grabbed = s.grabbed) (hstill : Still s live live')
    (hslot : ∀ d, s.drag = some d → ∀ v, live[d.slot]? = some v →
      ∃ v', live'[d.slot]? = some v' ∧ v'.id = v.id) :
    (∃ live', Held s' live') ∧ Follows s s' := by
  refine ⟨⟨live', h', fun d hd => ?_, ?_⟩, follows_of_live h.tidy h' hstill fun id hid => ?_⟩
  · rw [hdrag] at hd
    obtain ⟨v, hv, hid⟩ := h.held d hd
    obtain ⟨v', hv', hid'⟩ := hslot d hd v hv
    exact ⟨v', hv', by rw [hgrabbed, hid']; exact hid⟩
  · rw [hdrag, hgrabbed]
    exact h.free
  · cases hd : s.drag with
    | none => cases (h.free hd).symm.trans hid
    | some d =>
      obtain ⟨v, hv, hgrab⟩ := h.held d hd
      obtain ⟨v', hv', hid'⟩ := hslot d hd v hv
      exact .inl ⟨v', mem_of_getElem? hv', hid'.trans (Option.some.inj (hgrab.symm.trans hid))⟩

theorem Held.same (h : Held s live) : (∃ live', Held s live') ∧ Follows s s :=
  h.carried h.tidy rfl rfl (still_self h.tidy) fun _ _ v hv => ⟨v, hv, rfl⟩

/-! ## Ticks -/

theorem Held.dragged (h : Held s live) {d : Drag} (hd : s.drag = some d) :
    (∃ live', Held (s.dragged d) live') ∧ Follows s (s.dragged d) := by
  obtain ⟨w, hw, hgrabbed⟩ := h.held d hd
  have hlt := (List.getElem?_eq_some_iff.mp hw).1
  have hid : (s.target d).id = w.id := by
    rw [← h.tidy.arranged.at?_of_getElem? hw]
    rfl
  refine h.carried (h.tidy.dragged d) rfl rfl (Still.map ?_ flags_dirtied) fun d' hd' v hv => ?_
  · intro w' hw' v hv hsame
    rcases mem_or_eq_of_mem_set hw' with hw' | rfl
    · exact still_self h.tidy w' hw' v hv hsame
    · -- the window of the drag
      refine .inr ⟨by rw [hd]; exact Option.some_ne_none d, ?_⟩
      rw [← hsame, hid]
      exact hgrabbed
  · cases hd.symm.trans hd'
    cases hw.symm.trans hv
    refine ⟨dirtied (s.target d), ?_, (flags_dirtied.id_eq _).trans hid⟩
    rw [getElem?_map, getElem?_set_self hlt]
    rfl

theorem Held.driven (h : Held s live) {prev : Nat} {r : State × Bool} (hr : Driven s live prev r)
    (htop : s.drag = none → s.Pressed prev → ∀ hit ∈ hitWindow s.windows s.ptr.x s.ptr.y,
      (at? s.windows hit).OnTitle s.ptr.x s.ptr.y → hit = liveCount s.windows - 1) :
    (∃ live', Held r.1 live') ∧ Follows s r.1 := by
  cases hr with
  | held hd _ => exact h.dragged hd
  | released _ _ =>
    have htidy : Tidy s.release live := h.tidy.same rfl rfl
    refine ⟨⟨live, htidy, ?_, fun _ => rfl⟩,
      follows_of_live h.tidy htidy (still_self h.tidy) fun _ _ => .inr rfl⟩
    exact fun d hd => nomatch hd
  | quiet hd => exact h.same
  | @grabBelow front back w hd hpress hlive hback hhit htitle =>
    subst hlive
    refine absurd (htop hd hpress _ hhit ?_) ?_
    · rw [h.tidy.arranged.at?_eq]
      exact htitle
    · rw [h.tidy.arranged.top_eq]
      have := length_pos_iff.mpr hback
      omega
  | @grabTop front w hd hlive =>
    subst hlive
    have htidy : Tidy (s.grab front.length w.id) (front ++ [w]) := h.tidy.same rfl rfl
    refine ⟨⟨_, htidy, ?_, ?_⟩, follows_of_live h.tidy htidy (still_self h.tidy) ?_⟩
    · intro d hd'
      cases hd'
      exact ⟨w, getElem?_concat_length, rfl⟩
    · intro hnone
      cases hnone
    · intro id hid
      rw [h.free hd] at hid
      cases hid
  | @clickBelow front back w hd _ hlive _ _ =>
    subst hlive
    have hmem : front ++ back ++ [w] ⊆ front ++ w :: back := by
      intro v hv
      simpa [or_assoc, or_comm, or_left_comm] using hv
    have hstill := still_of_flags h.tidy flags_dirtied hmem
    exact h.carried h.tidy.raised rfl rfl hstill fun d hd' => by cases hd.symm.trans hd'

/-! ## The other requests -/

variable {slot : Nat}

theorem Held.added (h : Held s live) (hslot : findSlot s.windows 0 = some slot) {w : Window}
    (hid : w.id = s.nextId) (hw : minDim ≤ w.w) (hh : minDim ≤ w.h)
    (hws : s'.windows = markAllDirty (s.windows.set slot w)) (hnext : s'.nextId = s.nextId + 1)
    (hdrag : s'.drag = s.drag) (hgrabbed : s'.grabbed = s.grabbed) :
    (∃ live', Held s' live') ∧ Follows s s' := by
  have htidy := h.tidy.added hslot hid hw hh hws hnext
  refine h.carried htidy hdrag hgrabbed (Still.map ?_ flags_dirtied)
    fun d _ v hv => ⟨dirtied v, ?_, flags_dirtied.id_eq v⟩
  · intro w' hw' v hv hsame
    rcases mem_append.mp hw' with hw' | hw'
    · exact still_self h.tidy w' hw' v hv hsame
    · -- the new window has a new id
      rw [mem_singleton.mp hw', hid] at hsame
      have := (h.tidy.given v hv).id
      omega
  · rw [getElem?_map, getElem?_append_left (List.getElem?_eq_some_iff.mp hv).1, hv]
    rfl

/-- A window whose flag is set is still the same. -/
theorem Held.flushed (h : Held s live) {slot : Nat}
    (hs' : s' = { s with windows := s.windows.set slot { at? s.windows slot with dirty := true } }) :
    (∃ live', Held s' live') ∧ Follows s s' := by
  have htidy : Tidy s' (live.set slot { at? s.windows slot with dirty := true }) := by
    rw [hs']
    exact h.tidy.set (w := { at? s.windows slot with dirty := true }) rfl rfl rfl rfl rfl
  subst hs'
  refine h.carried htidy rfl rfl ?_ fun d _ v hv => ?_
  · intro w' hw' w hw hsame
    rcases mem_or_eq_of_mem_set hw' with hw' | rfl
    · exact still_self h.tidy w' hw' w hw hsame
    · have hmem := h.tidy.arranged.at?_mem fun h0 => h.tidy.arranged.named w hw (hsame.symm.trans h0)
      exact .inl (unmoved h.tidy hmem hw rfl rfl rfl hsame)
  · rcases eq_or_ne slot d.slot with rfl | hne
    · refine ⟨_, getElem?_set_self (List.getElem?_eq_some_iff.mp hv).1, ?_⟩
      show (at? s.windows d.slot).id = v.id
      rw [h.tidy.arranged.at?_of_getElem? hv]
    · exact ⟨v, by rw [getElem?_set_ne hne, hv], rfl⟩

theorem Held.closed {front back : List Window} {w : Window} (h : Held s (front ++ w :: back))
    (habove : ∀ d ∈ s.drag, d.slot ≤ front.length)
    (hs' : s' = { s.endDrag front.length with windows := markAllDirty (remove s.windows front.length) }) :
    (∃ live', Held s' live') ∧ Follows s s' := by
  have hmem := (sublist_without front back w).subset
  have hleft : Tidy { s with windows := remove s.windows front.length } (front ++ back) :=
    ⟨h.tidy.arranged.arranged_remove, fun w hw => h.tidy.given w (hmem hw), h.tidy.positive⟩
  have htidy : Tidy s' ((front ++ back).map dirtied) := by
    rw [hs']
    exact hleft.map flags_dirtied rfl (endDrag_nextId _ _)
  have hstill := still_of_flags h.tidy flags_dirtied hmem
  cases hdrag : s.drag with
  | none =>
    rw [endDrag, hdrag] at hs'
    subst hs'
    exact h.carried htidy rfl rfl hstill fun d hd => by cases hdrag.symm.trans hd
  | some d =>
    rcases Nat.lt_or_eq_of_le (habove d hdrag) with hlt | heq
    · -- the windows below the closed one keep their slots
      have hend : s.endDrag front.length = s := by
        rw [endDrag, hdrag]
        exact if_neg (Nat.ne_of_lt hlt)
      rw [hend] at hs'
      subst hs'
      refine h.carried htidy rfl rfl hstill fun d' hd v hv => ⟨dirtied v, ?_, flags_dirtied.id_eq v⟩
      cases hdrag.symm.trans hd
      rw [getElem?_append_left hlt] at hv
      rw [getElem?_map, getElem?_append_left hlt, hv]
      rfl
    · simp only [endDrag, hdrag, if_pos heq] at hs'
      subst hs'
      refine ⟨⟨_, htidy, ?_, fun _ => rfl⟩, follows_of_live h.tidy htidy hstill fun _ _ => .inr rfl⟩
      exact fun d hd => by cases hd

/-! ## Runs -/

variable {r : Request}

theorem Held.served (h : Held s live) {o : Outcome} (hguard : s.OnGrabbed r)
    (ho : Served s live r o) : (∃ live', Held o.state live') ∧ Follows s o.state := by
  cases ho with
  | nothing => exact h.same
  | created hvalid hslot hs' =>
    subst hs'
    exact h.added hslot rfl hvalid.1 hvalid.2.2.1 rfl rfl rfl rfl
  | flushed _ hs' => exact h.flushed hs'
  | @ticked _ _ px py pb slot _ hslot happ hr =>
    -- the pointer is not part of what is kept
    have hptr : Held { s with ptr := ⟨px, py, pb⟩ } live := ⟨h.tidy.same rfl rfl, h.held, h.free⟩
    obtain ⟨hheld, hfollows⟩ := hptr.driven hr fun hd hpress => hguard ⟨slot, hslot, happ⟩ hd hpress
    exact ⟨hheld, hfollows.moved, hfollows.ended⟩
  | closed hslot happ hs' =>
    obtain ⟨hid, habove⟩ := hguard ⟨_, hslot, happ⟩
    obtain ⟨front, w, back, rfl, rfl, -⟩ := h.tidy.arranged.findSlot_split hid hslot
    exact h.closed (fun d hd => habove d hd _ hslot) hs'

theorem Held.step (h : Held s live) (hguard : s.OnGrabbed r) (hstep : s.Step r s') :
    (∃ live', Held s' live') ∧ Follows s s' := by
  obtain ⟨o, ho, rfl⟩ := Option.map_eq_some_iff.mp hstep
  obtain ⟨⟨live', hheld⟩, hfollows⟩ := h.served hguard (State.served h.tidy.arranged ho)
  obtain ⟨f, hf, hafter⟩ := after_eq o
  rw [hafter]
  exact ⟨⟨_, hheld.map hf⟩, hfollows.map hf⟩

/-- In every run of requests that meet the condition, every request moves no window but the one
that was grabbed, and the drag ends with it. -/
theorem follows_of_onGrabbed (screenW screenH : Nat) (rs : List Request) (s : State)
    (h : LTS.Run (LTS.guarded Step OnGrabbed) (start screenW screenH) rs s)
    (r : Request) (s' : State) (hguard : s.OnGrabbed r) (hstep : s.Step r s') : Follows s s' := by
  have hkeep : ∀ s r s', (∃ live, Held s live) → s.OnGrabbed r → Step s r s' → ∃ live, Held s' live := by
    rintro s r s' ⟨live, hheld⟩ hguard hstep
    exact (hheld.step hguard hstep).1
  obtain ⟨live, hheld⟩ := h.invariant_guarded hkeep ⟨[], tidy_start screenW screenH, nofun, fun _ => rfl⟩
  exact (hheld.step hguard hstep).2

/-- Two windows, of the tasks 5 and 6, and a press on the title bar of the second. -/
def grabSecond : List Request :=
  [.create 5 200 100 0x50000 20 [], .create 6 200 100 0x60000 20 [], .tick 5 1 300 45 1]

/-- The second window follows the pointer. -/
theorem follows_of_onGrabbed_second :
    ∃ s s', LTS.Run (LTS.guarded Step OnGrabbed) (start 1024 768) grabSecond s ∧
      s.OnGrabbed (.tick 5 1 310 60 1) ∧ s.Step (.tick 5 1 310 60 1) s' ∧
      s'.windows.map (fun w => (w.id, w.x, w.y)) ≠ s.windows.map (fun w => (w.id, w.x, w.y)) ∧
      Follows s s' := by
  obtain ⟨s, hrun, hguard, hs⟩ := LTS.Run.exists_of_guarded next OnGrabbed id (start 1024 768) grabSecond
    (fun s => s.OnGrabbed (.tick 5 1 310 60 1) ∧ (s.next (.tick 5 1 310 60 1)).any fun s' =>
      s'.windows.map (fun w => (w.id, w.x, w.y)) != s.windows.map (fun w => (w.id, w.x, w.y)))
    (by decide +kernel)
  obtain ⟨s', hs', hmoved⟩ := (Option.any_eq_true ..).mp hs
  exact ⟨s, s', hrun, hguard, hs', bne_iff_ne.mp hmoved, follows_of_onGrabbed _ _ _ s hrun _ s' hguard hs'⟩

/-- A press on the title bar of the lower window: it is raised, and the other one is dragged. -/
def grabFirst : List Request :=
  [.create 5 200 100 0x50000 20 [], .create 6 200 100 0x60000 20 [], .tick 5 1 100 45 1]

theorem drag_moves_another_window :
    ∃ s s', LTS.Run Step (start 1024 768) grabFirst s ∧ s.Step (.tick 5 1 130 60 1) s' ∧ ¬ Follows s s' := by
  obtain ⟨s, hrun, hs⟩ := LTS.Run.exists_of_exec next (S := Step) id (start 1024 768) grabFirst
    (fun s : State => (s.next (.tick 5 1 130 60 1)).any fun s' : State => decide (∃ w ∈ s.windows, ∃ w' ∈ s'.windows,
      w.id ≠ 0 ∧ w'.id = w.id ∧ w'.x ≠ w.x ∧ s.grabbed ≠ some w.id))
    (by decide +kernel)
  obtain ⟨s', hs', hwrong⟩ := (Option.any_eq_true ..).mp hs
  obtain ⟨w, hw, w', hw', hid, hsame, hx, hgrabbed⟩ := of_decide_eq_true hwrong
  refine ⟨s, s', hrun, hs', fun hfollows => ?_⟩
  exact hgrabbed (hfollows.moved w hw w' hw' hid hsame (.inl hx)).2

end Tanix.Wm.State
