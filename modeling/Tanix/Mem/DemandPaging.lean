/-
# `Tanix.Mem.DemandPaging` — a demand window is private memory that starts as zeros

Tasks load and store bytes in their demand windows.  An access that faults is offered to
`resolve_user_fault`; if that repairs the fault, the access is tried again, and other tasks
may run in between.  So the steps of the machine are

    fault   an access faults and the fault is repaired
    read    a load goes through, and sees a byte
    write   a store goes through

`remember` is what the windows are for: memory of each task's own, all zeros at the start.
The machine refines it (`Inv.step`).  A page of a window is, with the byte it stands for,

    unmapped   no descriptor                        0
    zero       the shared zero page, read-only      0
    own        a frame that no other page shows     the byte of the frame
-/
import Tanix.Lib.Run
import Tanix.Mem.Access
import Tanix.Mem.VmFault

namespace Tanix

/-- Address spaces: what `resolve_user_fault` knows about each task. -/
structure Spaces (τ : Type) where
  root : τ → Nat
  regions : τ → Fin taskRegions → TaskRegion
  zeroPage : Nat
  root_ne : ∀ t, root t ≠ 0
  root_inj : Function.Injective root
  zeroPage_page : IsPage zeroPage

namespace Spaces

variable {τ : Type} (S : Spaces τ)

/-- The address lies in a demand window of the task. -/
def Demand (t : τ) (va : Nat) : Prop :=
  ∃ i, (S.regions t i).kind = .demand ∧ (S.regions t i).covers (pageDown va) = true

/-- Demand windows end below `2 ^ 48` and meet no stack window. -/
structure Clear : Prop where
  low : ∀ t va, S.Demand t va → va < 2 ^ 48
  alone : ∀ t va i, S.Demand t va → (S.regions t i).covers (pageDown va) = true →
    (S.regions t i).kind ≠ .stack

/-- Where the task's walk for an address ends. -/
def walk (r : Ram) (t : τ) (va : Nat) : Nat × Nat :=
  r.walkEnd 3 (S.root t) va

/-- The fault status of an access.  A denied access may also be reported with the access-flag
class: `resolve_user_fault` expects that of the first store to the zero page. -/
def Raises (r : Ram) (t : τ) (va : Nat) (write : Bool) (esr : Nat) : Prop :=
  ∃ d, r.access (S.root t) va write = .error d ∧ (esr % 64 = d ∨ (12 ≤ d ∧ esr % 64 + 4 = d))

end Spaces

/-- What happens to a task in one of its windows. -/
inductive PageEvent (τ : Type)
  | fault (t : τ) (va : Nat) (write : Bool) (esr : Nat)
  | read (t : τ) (va : Nat) (v : UInt8)
  | write (t : τ) (va : Nat) (v : UInt8)

namespace PageEvent

variable {τ : Type} [DecidableEq τ]

/-- The byte that the event stores for `t` at `va`. -/
def stores (t : τ) (va : Nat) : PageEvent τ → Option UInt8
  | .write t' va' v => if t' = t ∧ va' = va then some v else none
  | _ => none

/-- The last byte that `t` stored at `va`, zero if there is none. -/
def lastWritten (es : List (PageEvent τ)) (t : τ) (va : Nat) : UInt8 :=
  (es.reverse.findSome? (stores t va)).getD 0

/-- Private memory after an event. -/
def remember (m : τ → Nat → UInt8) (e : PageEvent τ) : τ → Nat → UInt8 :=
  fun t va => (e.stores t va).getD (m t va)

theorem foldl_remember (es : List (PageEvent τ)) (m : τ → Nat → UInt8) (t : τ) (va : Nat) :
    es.foldl remember m t va = (es.reverse.findSome? (stores t va)).getD (m t va) := by
  induction es generalizing m with
  | nil => rfl
  | cons e es ih =>
    rw [List.foldl_cons, ih, List.reverse_cons, List.findSome?_append]
    cases es.reverse.findSome? (stores t va) with
    | some v => rfl
    | none =>
      rw [List.findSome?_singleton, remember, Option.none_or]
      rfl

end PageEvent

/-- One step of the tasks in their windows. -/
inductive PageStep {τ : Type} (S : Spaces τ) : Ram → PageEvent τ → Ram → Prop
  | fault {r r' : Ram} {t : τ} {va esr : Nat} {write : Bool} (hva : S.Demand t va)
      (hraise : S.Raises r t va write esr)
      (hr : r.resolveUserFault S.zeroPage (S.root t) (S.regions t) va esr = .ok (r', true)) :
      PageStep S r (.fault t va write esr) r'
  | read {r : Ram} {t : τ} {va p : Nat} (hva : S.Demand t va)
      (hp : r.access (S.root t) va false = .ok p) : PageStep S r (.read t va (r.byteAt p va)) r
  | write {r : Ram} {t : τ} {va p : Nat} {v : UInt8} (hva : S.Demand t va)
      (hp : r.access (S.root t) va true = .ok p) :
      PageStep S r (.write t va v) (r.setByteAt p va v)

/-! ## Pages of a window -/

/-- What stands behind the byte `v` at `va`, where `w` is the end of the walk. -/
inductive Backed (zeroPage : Nat) (r : Ram) (L : Labels) (w : Nat × Nat) (va : Nat) : UInt8 → Prop
  | unmapped (h : isValid w.2 = false) : Backed zeroPage r L w va 0
  | zero (h : w = (0, zeroPage ||| flagsUserCow)) : Backed zeroPage r L w va 0
  | own (f : Nat) (h : w = (0, f ||| flagsUserRwx)) (hp : IsPage f) (hused : ¬ r.IsFree f)
      (hf : L f = none) (hz : f ≠ zeroPage) : Backed zeroPage r L w va (r.byteAt f va)

/-- The machine shows the memory `m`. -/
structure Shows {τ : Type} (S : Spaces τ) (r : Ram) (L : Labels) (m : τ → Nat → UInt8) : Prop where
  tables : Tables r L fun _ _ => True
  roots : ∀ t, L (S.root t) = some (S.root t, [])
  zeroPage : ¬ r.IsFree S.zeroPage ∧ L S.zeroPage = none ∧ ∀ i, r.mem S.zeroPage i = 0
  backed : ∀ t va, S.Demand t va → Backed S.zeroPage r L (S.walk r t va) va (m t va)
  apart : ∀ t va t' va' f, S.Demand t va → S.Demand t' va' → IsPage f →
    S.walk r t va = (0, f ||| flagsUserRwx) → S.walk r t' va' = (0, f ||| flagsUserRwx) →
    t' = t ∧ pageDown va' = pageDown va

section Flags

variable {a b : Nat} (ha : IsPage a) (hb : IsPage b)

include ha hb

theorem rwx_inj (h : a ||| flagsUserRwx = b ||| flagsUserRwx) : a = b := by
  have haddr := congrArg addrOf h
  rwa [addrOf_or (by decide), addrOf_or (by decide), ha.addrOf, hb.addrOf] at haddr

theorem rwx_ne_cow : a ||| flagsUserRwx ≠ b ||| flagsUserCow := by
  intro h
  have htag := congrArg (· &&& descCowTag) h
  rw [and_or_of_aligned ha.aligned (by decide), and_or_of_aligned hb.aligned (by decide)] at htag
  exact absurd htag (by decide)

end Flags

theorem valid_rwx {a : Nat} (ha : IsPage a) : isValid (a ||| flagsUserRwx) = true := by
  rw [isValid_or ha.aligned]
  decide

theorem valid_cow {a : Nat} (ha : IsPage a) : isValid (a ||| flagsUserCow) = true := by
  rw [isValid_or ha.aligned]
  decide

variable {z f va' p esr root : Nat} {v : UInt8}

/-- The frame of a page that is open for stores is the one behind it. -/
theorem Backed.own_of_walk {r : Ram} {L : Labels} {w : Nat × Nat} {va : Nat}
    (h : Backed z r L w va v) (hz : IsPage z) (hf : IsPage f) (hw : w = (0, f ||| flagsUserRwx)) :
    ¬ r.IsFree f ∧ L f = none ∧ f ≠ z ∧ v = r.byteAt f va := by
  subst hw
  cases h with
  | unmapped h =>
    rw [valid_rwx hf] at h
    cases h
  | zero h => exact absurd (Prod.mk.inj h).2 (rwx_ne_cow hf hz)
  | own f' h hp hused hfree hne =>
    obtain rfl := rwx_inj hf hp (Prod.mk.inj h).2
    exact ⟨hused, hfree, hne, rfl⟩

/-- A page that is not open for stores stands for zeros. -/
theorem Backed.eq_zero {r : Ram} {L : Labels} {w : Nat × Nat} {va : Nat} (h : Backed z r L w va v)
    (hw : ∀ f, IsPage f → w ≠ (0, f ||| flagsUserRwx)) : v = 0 := by
  cases h with
  | unmapped => rfl
  | zero => rfl
  | own f h hp => exact absurd h (hw f hp)

/-- A change to the tables that leaves all pages alone but those in `P`. -/
structure SparesPages {τ : Type} (S : Spaces τ) (P : τ → Nat → Prop) (r : Ram) (L : Labels) (r' : Ram)
    (L' : Labels) : Prop where
  tables : Tables r' L' fun _ _ => True
  keeps : ∀ p l, L p = some l → L' p = some l
  data : ∀ p, ¬ r.IsFree p → L p = none → ¬ r'.IsFree p ∧ L' p = none ∧ r'.mem p = r.mem p
  walks : ∀ t va, S.Demand t va → ¬ P t va → WalkKept (S.walk r t va) (S.walk r' t va)

theorem Backed.spared {r r' : Ram} {L L' : Labels} {w w' : Nat × Nat} {va : Nat}
    (h : Backed z r L w va v) (hz : IsPage z) (hw : WalkKept w w')
    (hdata : ∀ p, ¬ r.IsFree p → L p = none → ¬ r'.IsFree p ∧ L' p = none ∧ r'.mem p = r.mem p) :
    Backed z r' L' w' va v := by
  cases h with
  | unmapped h => exact .unmapped (hw.valid_iff.trans h)
  | zero h =>
    obtain rfl := hw.of_valid (by rw [h]; exact valid_cow hz)
    exact .zero h
  | own f h hp hused hf hne =>
    obtain rfl := hw.of_valid (by rw [h]; exact valid_rwx hp)
    obtain ⟨hused', hf', hmem⟩ := hdata f hused hf
    rw [← byteAt_congr hmem]
    exact .own f h hp hused' hf' hne

section Step

variable {τ : Type} {S : Spaces τ} {r r' : Ram} {L L' : Labels} {m : τ → Nat → UInt8}

variable {va : Nat}

theorem demand_congr {t : τ} (h : S.Demand t va) (hp : pageDown va' = pageDown va) :
    S.Demand t va' := by
  obtain ⟨i, hk, hc⟩ := h
  exact ⟨i, hk, by rw [hp]; exact hc⟩

theorem walk_congr (r : Ram) (t : τ) (hp : pageDown va' = pageDown va) :
    S.walk r t va' = S.walk r t va := by
  rw [Spaces.walk, Spaces.walk, ← walkEnd_pageDown, hp, walkEnd_pageDown]

/-- Pages of windows that share their four indices are one page. -/
theorem sameSlot_eq (hva : va < 2 ^ 48) (hva' : va' < 2 ^ 48) (h : SameSlot (pageDown va) va') :
    pageDown va' = pageDown va := by
  simp only [SameSlot, pathDown_three, l0Idx, l1Idx, l2Idx, l3Idx, idxAt, List.cons.injEq, Fin.mk.injEq,
    and_true, pageDown, pageSize] at h ⊢
  omega

/-- The pages that are not `t`'s page at `va` keep what they show. -/
theorem Shows.spare (hs : Shows S r L m) (t : τ) (va : Nat)
    (h : SparesPages S (fun t' va' => t' = t ∧ pageDown va' = pageDown va) r L r' L')
    (hback : ∀ va', pageDown va' = pageDown va →
      Backed S.zeroPage r' L' (S.walk r' t va) va' (m t va'))
    (hnew : ∀ f, IsPage f → S.walk r' t va = (0, f ||| flagsUserRwx) → r.IsFree f) :
    Shows S r' L' m := by
  obtain ⟨hzused, hzL, hzero⟩ := hs.zeroPage
  obtain ⟨hzused', hzL', hzmem⟩ := h.data _ hzused hzL
  refine ⟨h.tables, fun t => h.keeps _ _ (hs.roots t), ⟨hzused', hzL', fun i => ?_⟩, ?_, ?_⟩
  · rw [hzmem]
    exact hzero i
  · intro t' va' hva'
    by_cases hp : t' = t ∧ pageDown va' = pageDown va
    · obtain ⟨rfl, hp⟩ := hp
      rw [walk_congr r' t' hp]
      exact hback va' hp
    · exact (hs.backed t' va' hva').spared S.zeroPage_page (h.walks t' va' hva' hp) h.data
  · -- an open page elsewhere was open before, on a frame that was not free
    have hold : ∀ t' va' f, S.Demand t' va' → IsPage f → ¬ (t' = t ∧ pageDown va' = pageDown va) →
        S.walk r' t' va' = (0, f ||| flagsUserRwx) →
        S.walk r t' va' = (0, f ||| flagsUserRwx) ∧ ¬ r.IsFree f := by
      intro t' va' f hva' hf hp hw
      have hkept := h.walks t' va' hva' hp
      have hvalid : isValid (S.walk r t' va').2 = true := by
        rw [← hkept.valid_iff, hw]
        exact valid_rwx hf
      have hsame := (hkept.of_valid hvalid).symm.trans hw
      exact ⟨hsame, ((hs.backed t' va' hva').own_of_walk S.zeroPage_page hf hsame).1⟩
    intro t₁ va₁ t₂ va₂ f hva₁ hva₂ hf hw₁ hw₂
    by_cases hp₁ : t₁ = t ∧ pageDown va₁ = pageDown va
    · by_cases hp₂ : t₂ = t ∧ pageDown va₂ = pageDown va
      · exact ⟨hp₂.1.trans hp₁.1.symm, hp₂.2.trans hp₁.2.symm⟩
      · rw [hp₁.1, walk_congr r' t hp₁.2] at hw₁
        exact absurd (hnew f hf hw₁) (hold t₂ va₂ f hva₂ hf hp₂ hw₂).2
    · by_cases hp₂ : t₂ = t ∧ pageDown va₂ = pageDown va
      · rw [hp₂.1, walk_congr r' t hp₂.2] at hw₂
        exact absurd (hnew f hf hw₂) (hold t₁ va₁ f hva₁ hf hp₁ hw₁).2
      · exact hs.apart t₁ va₁ t₂ va₂ f hva₁ hva₂ hf (hold t₁ va₁ f hva₁ hf hp₁ hw₁).1
          (hold t₂ va₂ f hva₂ hf hp₂ hw₂).1

/-! ## Faults -/

theorem Grows.data {o : Nat} {A : Nat → Nat → Prop} (h : Grows o A r L r' L')
    (hused : ¬ r.IsFree p) (hp : L p = none) :
    ¬ r'.IsFree p ∧ L' p = none ∧ r'.mem p = r.mem p := by
  refine ⟨fun hf => hused (h.taken.isFree hf), ?_, by_contra fun hne => ?_⟩
  · cases hL' : L' p with
    | none => rfl
    | some l =>
      rcases h.fresh p l hL' with hL | ⟨-, hfree⟩
      · rw [hp] at hL
        cases hL
      · exact absurd hfree hused
  · rcases h.mem p hne with hfree | ⟨path, hL⟩
    · exact hused hfree
    · cases hp.symm.trans hL

/-- A page that is not mapped becomes the zero page. -/
theorem Shows.opened (hc : S.Clear) (hs : Shows S r L m) {t : τ} (hva : S.Demand t va)
    (hinv : isValid (S.walk r t va).2 = false)
    (hr : r.mapUserFrame (S.root t) (pageDown va) S.zeroPage flagsUserCow = .ok r') :
    (∃ L', Shows S r' L' m) ∧ S.walk r' t va = (0, S.zeroPage ||| flagsUserCow) := by
  have hinv' : isValid (r.walkEnd 3 (S.root t) (pageDown va)).2 = false := by
    rw [walkEnd_pageDown]
    exact hinv
  have hb : isBlock (r.level2 (S.root t) (pageDown va)) = false := by
    cases hb : isBlock (r.level2 (S.root t) (pageDown va)) with
    | false => rfl
    | true =>
      rw [walkEnd_of_block hs.tables (hs.roots t) hb] at hinv'
      rw [isBlock, hinv'] at hb
      cases hb
  obtain ⟨L', hg⟩ := mapUserFrame_grows hs.tables (hs.roots t) hb ⟨by decide, fun _ => trivial⟩ hr
  obtain ⟨hw, hothers⟩ := mapUserFrame_walk hs.tables (hs.roots t) hb hr
  have hw' : S.walk r' t va = (0, S.zeroPage ||| flagsUserCow) := by
    rw [Spaces.walk, ← walkEnd_pageDown]
    exact hw
  refine ⟨⟨L', hs.spare t va ⟨hg.tables, hg.keeps, fun p => hg.data, ?_⟩ (fun va' hp => ?_) fun f hf hwf => ?_⟩,
    hw'⟩
  · intro t' va' hva' hne
    refine hothers (hs.roots t') fun hsame => hne ⟨S.root_inj hsame.1, ?_⟩
    exact sameSlot_eq (hc.low t va hva) (hc.low t' va' hva') hsame.2
  · have hm : m t va' = 0 := by
      refine (hs.backed t va' (demand_congr hva hp)).eq_zero fun f hf hwf => ?_
      rw [walk_congr r t hp] at hwf
      rw [hwf, valid_rwx hf] at hinv
      cases hinv
    rw [hm]
    exact .zero hw'
  · rw [hw'] at hwf
    exact absurd (Prod.mk.inj hwf).2.symm (rwx_ne_cow hf S.zeroPage_page)

/-- A store to the zero page is given a frame. -/
theorem Shows.split (hc : S.Clear) (hs : Shows S r L m) {t : τ} (hva : S.Demand t va)
    (hz : S.walk r t va = (0, S.zeroPage ||| flagsUserCow)) {r₁ : Ram}
    (hf : r.allocFrame = some (r₁, f)) :
    Shows S ((r₁.setPage f (r₁.mem S.zeroPage)).writeUserPage (S.root t) (pageDown va)
      (f ||| flagsUserRwx)) L m ∧
    S.walk ((r₁.setPage f (r₁.mem S.zeroPage)).writeUserPage (S.root t) (pageDown va)
      (f ||| flagsUserRwx)) t va = (0, f ||| flagsUserRwx) := by
  have htake := allocFrame_takes hs.tables.window hf
  obtain ⟨hzused, hzL, hzero⟩ := hs.zeroPage
  have hfL := hs.tables.unlabelled htake.free
  have hfz : f ≠ S.zeroPage := by
    rintro rfl
    exact hzused htake.free
  -- the frame is filled first; no table changes
  have hlab : ∀ p l, L p = some l → (r₁.setPage f (r₁.mem S.zeroPage)).mem p = r.mem p := by
    intro p l hp
    rw [Ram.setPage_mem_ne, htake.mem]
    rintro rfl
    rw [hfL] at hp
    cases hp
  have ht₂ : Tables (r₁.setPage f (r₁.mem S.zeroPage)) L fun _ _ => True := by
    refine (hs.tables.retake htake.taken htake.mem).elsewhere rfl fun p l hp => ?_
    rw [hlab p l hp, htake.mem]
  have hwalk : ∀ t va, (r₁.setPage f (r₁.mem S.zeroPage)).walkEnd 3 (S.root t) va = S.walk r t va :=
    fun t va => elsewhere_walk hs.tables hlab 3 (hs.roots t) rfl
  have hfill : ∀ i, (r₁.setPage f (r₁.mem S.zeroPage)).mem f i = 0 := by
    intro i
    rw [Ram.setPage_mem_same, htake.mem]
    exact hzero i
  have hother : ∀ p, p ≠ f → (r₁.setPage f (r₁.mem S.zeroPage)).mem p = r.mem p := by
    intro p hp
    rw [Ram.setPage_mem_ne _ _ hp, htake.mem]
  have hfree : ∀ {p}, (r₁.setPage f (r₁.mem S.zeroPage)).IsFree p → r₁.IsFree p := id
  generalize r₁.setPage f (r₁.mem S.zeroPage) = r₂ at *
  -- then its descriptor is written
  have hdown : (r₂.walkEnd 3 (S.root t) (pageDown va)).1 = 0 := by
    rw [walkEnd_pageDown, hwalk, hz]
  obtain ⟨l1, l2, l3, hl⟩ := leads_of_walkEnd hdown
  have hl3 := (hl.labels ht₂ (hs.roots t)).2.2
  rw [hl.writeUserPage]
  have hg := ht₂.write hl3 rfl (l3Idx (pageDown va)) (v := f ||| flagsUserRwx) fun _ _ => trivial
  have hw : S.walk (r₂.setEntry l3 (l3Idx (pageDown va)) (f ||| flagsUserRwx)) t va =
      (0, f ||| flagsUserRwx) := by
    rw [Spaces.walk, ← walkEnd_pageDown]
    exact hl.write_walk ht₂ (hs.roots t) _
  have hflat : (r₂.setEntry l3 (l3Idx (pageDown va)) (f ||| flagsUserRwx)).mem f = r₂.mem f := by
    refine Ram.setEntry_mem_ne _ _ ?_
    rintro rfl
    rw [hfL] at hl3
    cases hl3
  refine ⟨hs.spare t va ⟨hg.tables, fun _ _ => id, ?_, ?_⟩ (fun va' hp => ?_) fun f' hf' hwf => ?_, hw⟩
  · intro p hused hp
    obtain ⟨hused', -, hmem⟩ := hg.data (fun hfr => hused (htake.taken.isFree (hfree hfr))) hp
    refine ⟨hused', hp, hmem.trans (hother p ?_)⟩
    rintro rfl
    exact hused htake.free
  · intro t' va' hva' hne
    refine Or.inl ?_
    rw [Spaces.walk, write_walk ht₂ hl3 _ (hs.roots t') fun hsame => hne ⟨S.root_inj hsame.1, ?_⟩,
      hwalk]
    exact sameSlot_eq (hc.low t va hva) (hc.low t' va' hva') hsame.2
  · have hm : m t va' = 0 := by
      refine (hs.backed t va' (demand_congr hva hp)).eq_zero fun f' hf' hwf => ?_
      rw [walk_congr r t hp, hz] at hwf
      exact rwx_ne_cow hf' S.zeroPage_page (Prod.mk.inj hwf).2.symm
    have hbyte : (r₂.setEntry l3 (l3Idx (pageDown va)) (f ||| flagsUserRwx)).byteAt f va' = 0 := by
      rw [byteAt_congr hflat, Ram.byteAt, hfill]
      exact Bytes.get_zero _
    rw [hm, ← hbyte]
    exact .own f hw htake.page (fun hfr => htake.used (hfree hfr)) hfL hfz
  · rw [hw] at hwf
    obtain rfl := rwx_inj htake.page hf' (Prod.mk.inj hwf).2
    exact htake.free

theorem resolve_unmapped (hc : S.Clear) {t : τ} (hva : S.Demand t va)
    (hesr : 4 ≤ esr % 64 ∧ esr % 64 ≤ 7) :
    r.resolveUserFault S.zeroPage (S.root t) (S.regions t) va esr =
      (r.mapUserFrame (S.root t) (pageDown va) S.zeroPage flagsUserCow >>= fun r' => .ok (r', true)) := by
  obtain ⟨i, hkind, hcov⟩ := hva
  rw [Ram.resolveUserFault, if_neg (S.root_ne t), if_pos (by simpa [inClass] using hesr)]
  cases hfind : (List.finRange taskRegions).find? fun i =>
      (S.regions t i).kind != .none && (S.regions t i).covers (pageDown va) with
  | none =>
    have hno := List.find?_eq_none.mp hfind i (List.mem_finRange i)
    rw [hkind, hcov] at hno
    exact absurd rfl hno
  | some j =>
    have hj := List.find?_some hfind
    obtain ⟨hsome, hcovj⟩ := Bool.and_eq_true_iff.mp hj
    have halone := hc.alone t va j ⟨i, hkind, hcov⟩ hcovj
    simp only
    cases hk : (S.regions t j).kind with
    | none =>
      rw [hk] at hsome
      cases hsome
    | stack => exact absurd hk halone
    | demand => rfl

theorem resolve_cow {regions : Fin taskRegions → TaskRegion} (hroot : root ≠ 0) (hz : IsPage z)
    (hread : r.readUserPage root (pageDown va) = z ||| flagsUserCow)
    (hesr : esr % 64 = 15 ∨ esr % 64 = 11) : r.resolveUserFault z root regions va esr =
      .ok (r.cowSplit root (pageDown va) (z ||| flagsUserCow)) := by
  have hcow : (isValid (z ||| flagsUserCow) && isCow (z ||| flagsUserCow)) = true := by
    rw [valid_cow hz, isCow, and_or_of_aligned hz.aligned (by decide)]
    decide
  rw [Ram.resolveUserFault, if_neg hroot]
  rcases hesr with hd | hd
  · rw [hd, hread, if_neg (by decide), if_pos (by decide), if_pos hcow]
  · rw [hd, hread, if_neg (by decide), if_neg (by decide), if_pos (by decide), if_pos hcow]

/-- The two faults of a demand window, and what `resolve_user_fault` makes of them. -/
theorem Shows.raised (hc : S.Clear) (hs : Shows S r L m) {t : τ} {write : Bool}
    (hva : S.Demand t va) (h : S.Raises r t va write esr) :
    (isValid (S.walk r t va).2 = false ∧
      r.resolveUserFault S.zeroPage (S.root t) (S.regions t) va esr =
        (r.mapUserFrame (S.root t) (pageDown va) S.zeroPage flagsUserCow >>= fun r' => .ok (r', true))) ∨
    (S.walk r t va = (0, S.zeroPage ||| flagsUserCow) ∧ write = true ∧
      r.resolveUserFault S.zeroPage (S.root t) (S.regions t) va esr =
        .ok (r.cowSplit (S.root t) (pageDown va) (S.zeroPage ||| flagsUserCow))) := by
  obtain ⟨d, hd, hesr⟩ := h
  have hlow := hc.low t va hva
  have hback := hs.backed t va hva
  generalize m t va = v at hback
  cases hback with
  | unmapped hinv =>
    rw [access_unmapped hlow hinv] at hd
    have hd := Except.error.inj hd
    have hle := walkEnd_le (r := r) 3 (S.root t) va
    exact Or.inl ⟨hinv, resolve_unmapped hc hva (by omega)⟩
  | zero hz =>
    rw [access_cow hlow S.zeroPage_page hz] at hd
    cases write with
    | false => cases hd
    | true =>
      have hd : 15 = d := Except.error.inj hd
      have hread : r.readUserPage (S.root t) (pageDown va) = S.zeroPage ||| flagsUserCow := by
        rw [readUserPage_eq hs.tables (hs.roots t), walkEnd_pageDown, ← Spaces.walk, hz]
        rfl
      exact Or.inr ⟨hz, rfl, resolve_cow (S.root_ne t) S.zeroPage_page hread (by omega)⟩
  | own f hw hf =>
    rw [access_own hlow hf hw] at hd
    cases hd

/-- Where an access goes that does not fault. -/
theorem Shows.went (hc : S.Clear) (hs : Shows S r L m) {t : τ} {write : Bool}
    (hva : S.Demand t va) (h : r.access (S.root t) va write = .ok p) :
    m t va = r.byteAt p va ∧
      (write = true → IsPage p ∧ S.walk r t va = (0, p ||| flagsUserRwx)) := by
  have hlow := hc.low t va hva
  have hback := hs.backed t va hva
  generalize m t va = v at hback
  cases hback with
  | unmapped hinv =>
    rw [access_unmapped hlow hinv] at h
    cases h
  | zero hz =>
    rw [access_cow hlow S.zeroPage_page hz] at h
    cases write with
    | true => cases h
    | false =>
      cases h
      refine ⟨?_, fun hw => by cases hw⟩
      rw [Ram.byteAt, hs.zeroPage.2.2, Bytes.get_zero]
  | own f hw hf =>
    rw [access_own hlow hf hw] at h
    cases h
    exact ⟨rfl, fun _ => ⟨hf, hw⟩⟩

/-! ## Stores -/

theorem Shows.stored [DecidableEq τ] (hs : Shows S r L m) {t : τ} {va p : Nat} (v : UInt8)
    (hva : S.Demand t va) (hp : IsPage p) (hw : S.walk r t va = (0, p ||| flagsUserRwx)) :
    Shows S (r.setByteAt p va v) L (PageEvent.remember m (.write t va v)) := by
  obtain ⟨hused, hpL, hpz, -⟩ := (hs.backed t va hva).own_of_walk S.zeroPage_page hp hw
  have hmem : ∀ q, q ≠ p → (r.setByteAt p va v).mem q = r.mem q := fun q hq =>
    Ram.setEntry_mem_ne _ _ hq
  have hlab : ∀ q l, L q = some l → (r.setByteAt p va v).mem q = r.mem q := by
    intro q l hq
    refine hmem q ?_
    rintro rfl
    rw [hpL] at hq
    cases hq
  have hwalk : ∀ t' va', S.walk (r.setByteAt p va v) t' va' = S.walk r t' va' := fun t' va' =>
    elsewhere_walk hs.tables hlab 3 (hs.roots t') rfl
  refine ⟨hs.tables.elsewhere rfl hlab, hs.roots, ?_, ?_, ?_⟩
  · obtain ⟨hzused, hzL, hzero⟩ := hs.zeroPage
    refine ⟨hzused, hzL, fun i => ?_⟩
    rw [hmem _ (Ne.symm hpz)]
    exact hzero i
  · intro t' va' hva'
    rw [hwalk]
    by_cases hsame : t' = t ∧ pageDown va' = pageDown va
    · -- the page that was written to
      obtain ⟨rfl, hpage⟩ := hsame
      have hw' : S.walk r t' va' = (0, p ||| flagsUserRwx) := (walk_congr r t' hpage).trans hw
      have hbyte : PageEvent.remember m (.write t' va v) t' va' = (r.setByteAt p va v).byteAt p va' := by
        rw [PageEvent.remember, PageEvent.stores]
        by_cases hv : va = va'
        · rw [if_pos ⟨rfl, hv⟩, ← hv, Ram.byteAt, Ram.setByteAt, Ram.setEntry_mem, if_pos ⟨rfl, rfl⟩,
            Bytes.get_set_self]
          rfl
        · rw [if_neg fun hc => hv hc.2, byteAt_setByteAt_ne r p v hpage (Ne.symm hv)]
          exact ((hs.backed t' va' hva').own_of_walk S.zeroPage_page hp hw').2.2.2
      rw [hbyte]
      exact .own p hw' hp hused hpL hpz
    · -- the others show other frames
      have hkeep : PageEvent.remember m (.write t va v) t' va' = m t' va' := by
        rw [PageEvent.remember, PageEvent.stores, if_neg]
        · rfl
        · rintro ⟨rfl, rfl⟩
          exact hsame ⟨rfl, rfl⟩
      rw [hkeep]
      have hback := hs.backed t' va' hva'
      have hfar : ∀ f, IsPage f → S.walk r t' va' = (0, f ||| flagsUserRwx) → f ≠ p := by
        rintro f hf hwf rfl
        exact hsame (hs.apart t va t' va' f hva hva' hf hw hwf)
      generalize m t' va' = b at hback
      cases hback with
      | unmapped h => exact .unmapped h
      | zero h => exact .zero h
      | own f h hf hfused hfL hfz =>
        rw [← byteAt_congr (hmem f (hfar f hf h))]
        exact .own f h hf hfused hfL hfz
  · intro t₁ va₁ t₂ va₂ f hva₁ hva₂ hf hw₁ hw₂
    rw [hwalk] at hw₁ hw₂
    exact hs.apart t₁ va₁ t₂ va₂ f hva₁ hva₂ hf hw₁ hw₂

/-! ## Progress -/

/-- The faults that an access still has before it. -/
def Spaces.faultsAhead (S : Spaces τ) (r : Ram) (t : τ) (va : Nat) (write : Bool) : Nat :=
  if isValid (S.walk r t va).2 then if write && readOnly (S.walk r t va).2 then 1 else 0
  else if write then 2 else 1

/-- The fault is repaired, and the access has one fewer before it, unless there are no frames. -/
def Spaces.Repairs (S : Spaces τ) (r : Ram) (t : τ) (va : Nat) (write : Bool) (esr : Nat) : Prop :=
  match r.resolveUserFault S.zeroPage (S.root t) (S.regions t) va esr with
  | .error e => e = .pageTableOom
  | .ok (r', true) => S.faultsAhead r' t va write + 1 = S.faultsAhead r t va write
  | .ok (_, false) => r.allocFrame = none

section Ahead

variable {t : τ} {va : Nat} (write : Bool)

theorem faultsAhead_unmapped (h : isValid (S.walk r t va).2 = false) :
    S.faultsAhead r t va write = if write then 2 else 1 := by
  rw [Spaces.faultsAhead, h, if_neg Bool.false_ne_true]

theorem faultsAhead_zero (h : S.walk r t va = (0, S.zeroPage ||| flagsUserCow)) :
    S.faultsAhead r t va write = if write then 1 else 0 := by
  have hro : readOnly (S.zeroPage ||| flagsUserCow) = true := by
    rw [readOnly, and_or_of_aligned S.zeroPage_page.aligned (by decide)]
    decide
  rw [Spaces.faultsAhead, h, valid_cow S.zeroPage_page, hro, Bool.and_true, if_pos rfl]

theorem faultsAhead_own (hf : IsPage f) (h : S.walk r t va = (0, f ||| flagsUserRwx)) :
    S.faultsAhead r t va write = 0 := by
  have hro : readOnly (f ||| flagsUserRwx) = false := by
    rw [readOnly, and_or_of_aligned hf.aligned (by decide)]
    decide
  rw [Spaces.faultsAhead, h, valid_rwx hf, hro, Bool.and_false]
  rfl

end Ahead

theorem Shows.goes (hc : S.Clear) (hs : Shows S r L m) {t : τ} (hva : S.Demand t va)
    (write : Bool) :
    (∃ p, r.access (S.root t) va write = .ok p) ↔ S.faultsAhead r t va write = 0 := by
  have hlow := hc.low t va hva
  have hback := hs.backed t va hva
  generalize m t va = v at hback
  cases hback with
  | unmapped hinv =>
    rw [access_unmapped hlow hinv, faultsAhead_unmapped write hinv]
    cases write with
    | false => simp
    | true => simp
  | zero hz =>
    rw [access_cow hlow S.zeroPage_page hz, faultsAhead_zero write hz]
    cases write with
    | false => simp
    | true => simp
  | own f hw hf =>
    rw [access_own hlow hf hw, faultsAhead_own write hf hw]
    exact ⟨fun _ => rfl, fun _ => ⟨f, rfl⟩⟩

theorem Shows.repairs (hc : S.Clear) (hs : Shows S r L m) {t : τ} {write : Bool}
    (hva : S.Demand t va) (h : S.Raises r t va write esr) : S.Repairs r t va write esr := by
  rw [Spaces.Repairs]
  rcases hs.raised hc hva h with ⟨hinv, heq⟩ | ⟨hz, rfl, heq⟩
  · rw [heq]
    cases hr : r.mapUserFrame (S.root t) (pageDown va) S.zeroPage flagsUserCow with
    | error e => exact mapUserFrame_error (pageDown_aligned va) S.zeroPage_page.aligned hr
    | ok r' =>
      show S.faultsAhead r' t va write + 1 = S.faultsAhead r t va write
      rw [faultsAhead_zero write (hs.opened hc hva hinv hr).2, faultsAhead_unmapped write hinv]
      cases write with
      | false => rfl
      | true => rfl
  · rw [heq, Ram.cowSplit]
    cases hf : r.allocFrame with
    | none => rfl
    | some rf =>
      obtain ⟨r₁, f⟩ := rf
      have htake := allocFrame_takes hs.tables.window hf
      simp only [addrOf_or (show flagsUserCow &&& addrMask = 0 by decide), S.zeroPage_page.addrOf]
      rw [faultsAhead_own true htake.page (hs.split hc hva hz hf).2, faultsAhead_zero true hz]
      rfl

/-! ## Steps and runs -/

/-- A step of the machine is a step of private memory, and a load sees what is there. -/
theorem Shows.step [DecidableEq τ] {e : PageEvent τ} (hc : S.Clear) (hs : Shows S r L m)
    (h : PageStep S r e r') :
    (∃ L', Shows S r' L' (PageEvent.remember m e)) ∧ ∀ t va v, e = .read t va v → v = m t va := by
  cases h with
  | fault hva hraise hr =>
    refine ⟨?_, fun _ _ _ he => by cases he⟩
    show ∃ L', Shows S r' L' m
    rcases hs.raised hc hva hraise with ⟨hinv, heq⟩ | ⟨hz, -, heq⟩
    · rw [heq] at hr
      obtain ⟨r₁, hr₁, hr⟩ := bind_eq_ok.mp hr
      cases hr
      exact (hs.opened hc hva hinv hr₁).1
    · rw [heq, Ram.cowSplit] at hr
      split at hr
      · cases hr
      · rename_i r₁ f hf
        cases hr
        rw [addrOf_or (by decide), S.zeroPage_page.addrOf]
        exact ⟨L, (hs.split hc hva hz hf).1⟩
  | read hva hp =>
    refine ⟨⟨L, hs⟩, fun t va v he => ?_⟩
    cases he
    exact ((hs.went hc hva hp).1).symm
  | write hva hp =>
    refine ⟨?_, fun _ _ _ he => by cases he⟩
    obtain ⟨hpage, hw⟩ := (hs.went hc hva hp).2 rfl
    exact ⟨L, hs.stored _ hva hpage hw⟩

/-- A repaired fault is one fewer. -/
theorem Shows.ahead {t : τ} {write : Bool} (hc : S.Clear) (hs : Shows S r L m)
    (h : PageStep S r (.fault t va write esr) r') :
    S.faultsAhead r' t va write + 1 = S.faultsAhead r t va write := by
  cases h with
  | fault hva hraise hr =>
    have hrep := hs.repairs hc hva hraise
    rw [Spaces.Repairs, hr] at hrep
    exact hrep

theorem Shows.run [DecidableEq τ] {es : List (PageEvent τ)} (hc : S.Clear) (hs : Shows S r L m)
    (h : LTS.Run (PageStep S) r es r') : ∃ L', Shows S r' L' (es.foldl PageEvent.remember m) := by
  induction h generalizing L m with
  | nil r => exact ⟨L, hs⟩
  | cons hstep _ ih =>
    obtain ⟨⟨L₁, hs₁⟩, -⟩ := hs.step hc hstep
    exact ih hs₁

/-- Before the first access: the tables of the tasks are trees of their own, the zero page is none
of them and is zero, and the windows lie where nothing is mapped. -/
structure Spaces.Fresh (S : Spaces τ) (r : Ram) : Prop where
  forest : ∃ L, Tables r L (fun _ _ => True) ∧ (∀ t, L (S.root t) = some (S.root t, [])) ∧
    L S.zeroPage = none
  zeroPage : ¬ r.IsFree S.zeroPage ∧ ∀ i, r.mem S.zeroPage i = 0
  unmapped : ∀ t va, S.Demand t va → isValid (S.walk r t va).2 = false

theorem Spaces.Fresh.shows (h : S.Fresh r) : ∃ L, Shows S r L fun _ _ => 0 := by
  obtain ⟨L, ht, hroots, hz⟩ := h.forest
  refine ⟨L, ht, hroots, ⟨h.zeroPage.1, hz, h.zeroPage.2⟩, ?_, ?_⟩
  · intro t va hva
    exact .unmapped (h.unmapped t va hva)
  · intro t va t' va' f hva _ hf hw
    have hinv := h.unmapped t va hva
    rw [hw, valid_rwx hf] at hinv
    cases hinv

/-- In every interleaving a load sees the last byte that the same task stored there, or zero; the
zero page stays zero; and an access goes through after at most two repaired faults. -/
theorem demand_windows_private [DecidableEq τ] (hc : S.Clear) (h0 : S.Fresh r)
    {es : List (PageEvent τ)} (h : LTS.Run (PageStep S) r es r') :
    (∀ t va v r'', PageStep S r' (.read t va v) r'' → v = PageEvent.lastWritten es t va) ∧
    (∀ i, r'.mem S.zeroPage i = 0) ∧
    ∀ t va write, S.Demand t va →
      ((∃ p, r'.access (S.root t) va write = .ok p) ↔ S.faultsAhead r' t va write = 0) ∧
      ∀ esr, S.Raises r' t va write esr → S.Repairs r' t va write esr := by
  obtain ⟨L, hs⟩ := h0.shows
  obtain ⟨L', hs'⟩ := hs.run hc h
  refine ⟨fun t va v r'' hread => ?_, hs'.zeroPage.2.2, fun t va write hva => ?_⟩
  · rw [(hs'.step hc hread).2 t va v rfl, PageEvent.foldl_remember, PageEvent.lastWritten]
  · exact ⟨hs'.goes hc hva write, fun esr => hs'.repairs hc hva⟩

end Step

/-! ## Running the steps -/

namespace Spaces

variable {τ : Type} (S : Spaces τ)

instance (t : τ) (va : Nat) : Decidable (S.Demand t va) :=
  inferInstanceAs (Decidable (∃ i, (S.regions t i).kind = .demand ∧
    (S.regions t i).covers (pageDown va) = true))

/-- The step that an event asks for, if it is one. -/
def next (r : Ram) : PageEvent τ → Option Ram
  | .fault t va write esr =>
    match r.access (S.root t) va write with
    | .ok _ => none
    | .error d =>
      if S.Demand t va ∧ esr % 64 = d then
        match r.resolveUserFault S.zeroPage (S.root t) (S.regions t) va esr with
        | .ok (r', true) => some r'
        | _ => none
      else none
  | .read t va v =>
    match r.access (S.root t) va false with
    | .ok p => if S.Demand t va ∧ r.byteAt p va = v then some r else none
    | .error _ => none
  | .write t va v =>
    match r.access (S.root t) va true with
    | .ok p => if S.Demand t va then some (r.setByteAt p va v) else none
    | .error _ => none

theorem next_step {r r' : Ram} {e : PageEvent τ} (h : S.next r e = some r') : PageStep S r e r' := by
  cases e with
  | fault t va write esr =>
    rw [next] at h
    split at h
    · cases h
    · rename_i d hd
      split at h
      · rename_i hva
        split at h
        · rename_i r₁ hr
          cases h
          exact .fault hva.1 ⟨d, hd, Or.inl hva.2⟩ hr
        · cases h
      · cases h
  | read t va v =>
    rw [next] at h
    split at h
    · rename_i p hp
      obtain ⟨⟨hva, rfl⟩, hr⟩ := Option.ite_none_right_eq_some.mp h
      cases hr
      exact .read hva hp
    · cases h
  | write t va v =>
    rw [next] at h
    split at h
    · rename_i p hp
      obtain ⟨hva, ⟨⟩⟩ := Option.ite_none_right_eq_some.mp h
      exact .write hva hp
    · cases h

/-- Two tasks, each with a window of one page at 4 GiB. -/
def twoTasks : Spaces Bool where
  root t := if t then 0x40001000 else 0x40000000
  regions _ i := if i = 0 then ⟨.demand, 0x100000000, 1⟩ else .empty
  zeroPage := 0x40002000
  root_ne t := by cases t <;> decide
  root_inj := by decide
  zeroPage_page := ⟨by decide, by decide⟩

/-- Their tables are empty, and thirteen frames are free. -/
def twoTasksRam : Ram where
  frames := ⟨0x40000000, 0x10000, 16, fun i => decide (3 ≤ i), 13⟩
  mem _ _ := 0

theorem twoTasks_demand {t : Bool} {va : Nat} (h : twoTasks.Demand t va) :
    0x100000000 ≤ va ∧ va < 0x100001000 := by
  obtain ⟨i, hk, hcov⟩ := h
  simp only [twoTasks] at hk hcov
  split at hk
  · rename_i hi
    rw [if_pos hi] at hcov
    obtain ⟨hlo, hhi⟩ := Bool.and_eq_true_iff.mp hcov
    have hlo : 0x100000000 ≤ pageDown va := of_decide_eq_true hlo
    have hhi : pageDown va < 0x100000000 + 1 * pageSize := of_decide_eq_true hhi
    simp only [pageDown, pageSize] at hlo hhi
    omega
  · cases hk

theorem twoTasks_clear : twoTasks.Clear := by
  refine ⟨fun t va h => ?_, fun t va i h _ hk => ?_⟩
  · have := twoTasks_demand h
    omega
  · simp only [twoTasks] at hk
    split at hk
    · cases hk
    · cases hk

theorem twoTasks_fresh : twoTasks.Fresh twoTasksRam := by
  have hused : ∀ p, p < 0x40003000 → ¬ twoTasksRam.IsFree p := by
    rintro p hp ⟨i, hi, rfl⟩
    simp only [twoTasksRam, decide_eq_true_eq, pageSize] at hi hp
    omega
  refine ⟨⟨_, .bare [0x40000000, 0x40001000] ⟨by decide, by decide⟩ ?_ ?_ fun _ _ _ => rfl, ?_, by decide⟩,
    ⟨hused _ (by decide), fun _ => rfl⟩, ?_⟩
  · exact fun p hp => hused p (by revert p; decide)
  · exact fun p hp => ⟨by revert p; decide, by revert p; decide⟩
  · decide
  · intro t va _
    rw [walk, walkEnd_empty fun _ => rfl]
    rfl

/-- A store of one task takes two faults. -/
def twoTasksFaults : List (PageEvent Bool) :=
  [.fault false 0x100000005 true 4, .fault false 0x100000005 true 15]

theorem demand_windows_private_twoTasks :
    ∃ r', LTS.Run (PageStep twoTasks) twoTasksRam
        (twoTasksFaults ++ [.write false 0x100000005 7]) r' ∧
      ∀ t v r'', PageStep twoTasks r' (.read t 0x100000005 v) r'' → v = if t then 0 else 7 := by
  obtain ⟨r₂, hrun, -⟩ := LTS.Run.exists_of_exec twoTasks.next twoTasks.next_step twoTasksRam twoTasksFaults (fun _ => True)
    (by decide +kernel)
  obtain ⟨p, hp⟩ : ∃ p, r₂.access (twoTasks.root false) 0x100000005 true = .ok p := by
    refine ((demand_windows_private twoTasks_clear twoTasks_fresh hrun).2.2 false _ true (by decide)).1.mpr ?_
    obtain ⟨L, hs⟩ := twoTasks_fresh.shows
    cases hrun with
    | cons hfirst hrest =>
      have h₁ := hs.ahead twoTasks_clear hfirst
      obtain ⟨⟨L₁, hs₁⟩, -⟩ := hs.step twoTasks_clear hfirst
      cases hrest with
      | cons hsecond hrest =>
        have h₂ := hs₁.ahead twoTasks_clear hsecond
        cases hrest
        have h₀ : twoTasks.faultsAhead twoTasksRam false 0x100000005 true = 2 := by decide +kernel
        omega
  have hrun' := hrun.append (.single (.write (v := 7) (by decide) hp))
  refine ⟨_, hrun', fun t v r'' hread => ?_⟩
  rw [(demand_windows_private twoTasks_clear twoTasks_fresh hrun').1 t _ v r'' hread]
  cases t <;> rfl

end Spaces

end Tanix
