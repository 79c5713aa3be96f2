/-
# `Tanix.Monitor.Storage` — the secure store is a bounded map

What the store is for is a `Vault`: at most 32 names, each with a blob of at most 232 bytes.
A state `Stores` a vault when its 32 slots, read as a table, hold the vault's map.  PUT and
GET from buffers outside of the store then do what the vault says:

    PUT   stores when the blob fits, refuses otherwise           `Stores.storagePut`
    GET   gives the blob, or refuses                             `Stores.storageGet`
    every run of calls is a run of the vault                     `storage_refines_vault`
-/
import Tanix.Lib.Run
import Tanix.Lib.Slots
import Tanix.Monitor.Services

namespace Tanix.Monitor

open Memory

/-! ## The abstract store -/

structure Vault where
  blobs : Finmap fun _ : UInt64 => List UInt8
  few : blobs.keys.card ≤ storeSlots
  short : ∀ {name blob}, blobs.lookup name = some blob → blob.length ≤ storeDataMax

/-- A call, as its caller sees it: the bytes it hands over or the buffer it offers, the result,
and the buffer afterwards.  Whatever else happens to the memory outside of the store is
`outside`. -/
inductive StorageEvent where
  | put (name : UInt64) (blob : List UInt8) (result : UInt64)
  | get (name : UInt64) (before : List UInt8) (result : UInt64) (after : List UInt8)
  | outside

def StorageEvent.Fails : StorageEvent → Prop
  | .put _ _ result => result ≠ 0
  | .get _ _ result _ => result = failure ∨ result = tooSmall
  | .outside => False

variable {es : List StorageEvent}

namespace Vault

def empty : Vault where
  blobs := ∅
  few := Nat.zero_le _
  short h := by
    rw [Finmap.lookup_empty] at h
    cases h

/-- The blob is short enough, and the name is known or there is room for one more. -/
def Fits (v : Vault) (name : UInt64) (blob : List UInt8) : Prop :=
  blob.length ≤ storeDataMax ∧ (name ∈ v.blobs ∨ v.blobs.keys.card < storeSlots)

theorem keys_insert_card {blobs : Finmap fun _ : UInt64 => List UInt8} {name : UInt64}
    {blob : List UInt8} {n : Nat} (hle : blobs.keys.card ≤ n) (h : name ∈ blobs ∨ blobs.keys.card < n) :
    (blobs.insert name blob).keys.card ≤ n := by
  have hkeys : (blobs.insert name blob).keys = insert name blobs.keys := by
    ext k
    rw [Finmap.mem_keys, Finmap.mem_insert, Finset.mem_insert, Finmap.mem_keys]
  rw [hkeys]
  rcases h with hmem | hlt
  · rwa [Finset.insert_eq_of_mem (Finmap.mem_keys.mpr hmem)]
  · exact (Finset.card_insert_le name blobs.keys).trans hlt

def put (v : Vault) (name : UInt64) (blob : List UInt8) (h : v.Fits name blob) : Vault where
  blobs := v.blobs.insert name blob
  few := keys_insert_card v.few h.2
  short {name' blob'} h' := by
    by_cases hname : name' = name
    · rw [hname, Finmap.lookup_insert] at h'
      cases h'
      exact h.1
    · rw [Finmap.lookup_insert_of_ne _ hname] at h'
      exact v.short h'

inductive Step : Vault → StorageEvent → Vault → Prop
  | stored {v : Vault} {name : UInt64} {blob : List UInt8} (h : v.Fits name blob) :
      Step v (.put name blob 0) (v.put name blob h)
  | refused {v : Vault} {name : UInt64} {blob : List UInt8} :
      ¬ v.Fits name blob → Step v (.put name blob failure) v
  | found {v : Vault} {name : UInt64} {blob before : List UInt8} :
      v.blobs.lookup name = some blob → blob.length ≤ before.length →
      Step v (.get name before (UInt64.ofNat blob.length) (blob ++ before.drop blob.length)) v
  | tooSmall {v : Vault} {name : UInt64} {blob before : List UInt8} :
      v.blobs.lookup name = some blob → before.length < blob.length →
      Step v (.get name before Monitor.tooSmall before) v
  | absent {v : Vault} {name : UInt64} {before : List UInt8} :
      v.blobs.lookup name = none → Step v (.get name before failure before) v
  | outside {v : Vault} : Step v .outside v

/-- What the last successful PUT of each name left. -/
def remember (last : UInt64 → Option (List UInt8)) : StorageEvent → UInt64 → Option (List UInt8)
  | .put name blob result => if result = 0 then Function.update last name (some blob) else last
  | _ => last

def lastPut (es : List StorageEvent) : UInt64 → Option (List UInt8) :=
  es.foldl remember fun _ => none

theorem Step.remember {v v' : Vault} {e : StorageEvent} (h : v.Step e v') :
    (fun name => v'.blobs.lookup name) = Vault.remember (fun name => v.blobs.lookup name) e := by
  cases h with
  | @stored name blob hfits =>
    funext name'
    show (v.blobs.insert name blob).lookup name' =
      Function.update (fun name => v.blobs.lookup name) name (some blob) name'
    by_cases hname : name' = name
    · rw [hname, Finmap.lookup_insert, Function.update_self]
    · rw [Finmap.lookup_insert_of_ne _ hname, Function.update_of_ne hname]
  | refused | found | tooSmall | absent | outside => rfl

/-- Along a run the vault holds what was last put. -/
theorem run_remember {v v' : Vault} (h : LTS.Run Step v es v') :
    (fun name => v'.blobs.lookup name) = es.foldl remember fun name => v.blobs.lookup name := by
  induction h with
  | nil => rfl
  | cons hstep _ ih => rw [ih, hstep.remember, List.foldl_cons]

theorem run_lastPut {v : Vault} (h : LTS.Run Step empty es v) (name : UInt64) :
    v.blobs.lookup name = lastPut es name := by
  have hempty : (fun name => empty.blobs.lookup name) = fun _ => none := funext fun _ => rfl
  have hrun := run_remember h
  rw [hempty] at hrun
  exact congrFun hrun name

end Vault

namespace Secure

/-! ## The slots as a table -/

def slotEntry (m : Mem) (store i : Nat) : Option (UInt64 × List UInt8) :=
  if slotTaken m store i then
    some (word m (storeSlot store i + 8),
      load m (storeSlot store i + 24) (word m (storeSlot store i + 16)).toNat)
  else none

def table (s : Secure) : Slots.Table storeSlots UInt64 (List UInt8) :=
  fun i => slotEntry s.mem (s.base + storeOff) i

structure Stores (s : Secure) (v : Vault) : Prop where
  base : s.base ≠ 0
  holds : Slots.Holds s.table v.blobs

/-- The bytes of a caller's buffer: they do not leave the address space, and none is the
store's. -/
def CallerBuffer (s : Secure) (p : UInt64) (n : Nat) : Prop :=
  p.toNat + n ≤ 2 ^ 64 ∧ (n = 0 ∨ p.toNat + n ≤ s.base + storeOff ∨
    s.base + storeOff + storeSlots * storeSlotSize ≤ p.toNat)

instance (s : Secure) (p : UInt64) (n : Nat) : Decidable (s.CallerBuffer p n) :=
  inferInstanceAs (Decidable (_ ∧ _))

inductive StorageStep : Secure → StorageEvent → Secure → Prop
  | put {s s' : Secure} {namePtr dataPtr len result : UInt64} :
      s.CallerBuffer namePtr 8 → s.CallerBuffer dataPtr len.toNat →
      s.storagePut namePtr dataPtr len = .ok (s', result) →
      StorageStep s (.put (word s.mem namePtr.toNat) (load s.mem dataPtr.toNat len.toNat) result) s'
  | get {s s' : Secure} {namePtr outPtr cap result : UInt64} :
      s.CallerBuffer namePtr 8 → s.CallerBuffer outPtr cap.toNat →
      s.storageGet namePtr outPtr cap = .ok (s', result) →
      StorageStep s (.get (word s.mem namePtr.toNat) (load s.mem outPtr.toNat cap.toNat) result
        (load s'.mem outPtr.toNat cap.toNat)) s'
  | outside {s s' : Secure} : s'.base = s.base →
      (∀ x, s.base + storeOff ≤ x → x < s.base + storeOff + storeSlots * storeSlotSize →
        s'.mem x = s.mem x) →
      StorageStep s .outside s'

variable {s s' : Secure} {v : Vault} {m m' : Mem} {area i : Nat} {name namePtr len : UInt64}

theorem slotEntry_of_named (h : slotNamed m area name i = true) : slotEntry m area i =
    some (name, load m (storeSlot area i + 24) (word m (storeSlot area i + 16)).toNat) := by
  obtain ⟨htaken, hname⟩ := (Bool.and_eq_true ..).mp h
  rw [slotEntry, if_pos htaken, eq_of_beq hname]

theorem slotEntry_eq_none : slotEntry m area i = none ↔ slotTaken m area i = false := by
  rw [slotEntry]
  split
  · rename_i htaken
    rw [htaken]
    exact iff_of_false (Option.some_ne_none _) Bool.noConfusion
  · rename_i hfree
    exact ⟨fun _ => Bool.eq_false_iff.mpr hfree, fun _ => rfl⟩

/-- An entry is read from its own slot. -/
theorem slotEntry_congr (short : ∀ entry, slotEntry m area i = some entry → entry.2.length ≤ storeDataMax)
    (h : ∀ x, storeSlot area i ≤ x → x < storeSlot area i + storeSlotSize → m' x = m x) :
    slotEntry m' area i = slotEntry m area i := by
  have hword : ∀ off, off + 8 ≤ storeSlotSize →
      word m' (storeSlot area i + off) = word m (storeSlot area i + off) := fun off hoff =>
    word_congr fun x hlo hhi => h x (by omega) (by omega)
  have htaken : slotTaken m' area i = slotTaken m area i := by
    rw [slotTaken, slotTaken]
    exact congrArg (· == storeMagic) (hword 0 (by decide))
  by_cases ht : slotTaken m area i = true
  · have hlen := short _ (if_pos ht)
    simp only [load_length, storeDataMax] at hlen
    have hblob : load m' (storeSlot area i + 24) (word m (storeSlot area i + 16)).toNat =
        load m (storeSlot area i + 24) (word m (storeSlot area i + 16)).toNat :=
      load_congr fun x hlo hhi => h x (by omega) (by simp only [storeSlotSize]; omega)
    simp only [slotEntry, htaken, ht, if_true, hword 8 (by decide), hword 16 (by decide), hblob]
  · rw [slotEntry, slotEntry, htaken, if_neg ht, if_neg ht]

theorem Stores.short (h : s.Stores v) (i : Fin storeSlots) (entry : UInt64 × List UInt8)
    (hi : slotEntry s.mem (s.base + storeOff) i = some entry) : entry.2.length ≤ storeDataMax :=
  v.short (h.holds.lookup.mpr ⟨i, hi⟩)

/-- A slot within the store. -/
theorem storeSlot_within {i : Nat} (hi : i < storeSlots) (area : Nat) : area ≤ storeSlot area i ∧
    storeSlot area i + storeSlotSize ≤ area + storeSlots * storeSlotSize := by
  simp only [storeSlots, storeSlot, storeSlotSize] at hi ⊢
  omega

/-- Memory outside of the store does not matter. -/
theorem Stores.congr (h : s.Stores v) (hbase : s'.base = s.base)
    (hmem : ∀ x, s.base + storeOff ≤ x → x < s.base + storeOff + storeSlots * storeSlotSize →
      s'.mem x = s.mem x) : s'.Stores v where
  base := hbase ▸ h.base
  holds := by
    have htable : s'.table = s.table := by
      funext i
      obtain ⟨hlo, hhi⟩ := storeSlot_within i.isLt (s.base + storeOff)
      rw [table, table, hbase]
      exact slotEntry_congr (h.short i) fun x hx hx' => hmem x (by omega) (by omega)
    rw [htable]
    exact h.holds

/-! ## Looking for a name -/

/-- The slot that has the name, else the first free one. -/
theorem scanSlots_eq (m : Mem) (area : Nat) (name : UInt64) (is : List Nat) (free : Option Nat) :
    scanSlots m area name is free =
      ((is.find? (slotNamed m area name)) <|> free <|> is.find? fun i => !slotTaken m area i) := by
  induction is generalizing free with
  | nil => cases free <;> rfl
  | cons i is ih =>
    rw [scanSlots, List.find?_cons, List.find?_cons, slotNamed]
    cases htaken : slotTaken m area i with
    | false =>
      rw [if_neg Bool.false_ne_true, ih]
      cases is.find? (slotNamed m area name) with
      | none => cases free <;> rfl
      | some j => rfl
    | true =>
      rw [if_pos rfl, ih]
      by_cases hname : word m (storeSlot area i + 8) = name
      · rw [if_pos hname, hname]
        simp
      · rw [if_neg hname, Bool.true_and, beq_false_of_ne hname]
        rfl

theorem find?_range {p : Nat → Bool} {n i : Nat} (h : (List.range n).find? p = some i) :
    i < n ∧ p i = true :=
  ⟨List.mem_range.mp (List.mem_of_find?_eq_some h), List.find?_some h⟩

theorem find?_range_none {p : Nat → Bool} {n : Nat} (h : (List.range n).find? p = none) (i : Fin n) :
    p i = false :=
  Bool.eq_false_iff.mpr (List.find?_eq_none.mp h i (List.mem_range.mpr i.isLt))

/-- A name without a slot is not in the vault. -/
theorem Stores.absent (h : s.Stores v)
    (hno : (List.range storeSlots).find? (slotNamed s.mem (s.base + storeOff) name) = none) :
    v.blobs.lookup name = none := by
  refine h.holds.lookup_eq_none.mpr fun i blob hi => ?_
  obtain ⟨htaken, heq⟩ := Option.ite_none_right_eq_some.mp hi
  obtain ⟨rfl, -⟩ := Prod.mk.inj (Option.some.inj heq)
  have hnamed := find?_range_none hno i
  rw [slotNamed, htaken, Bool.true_and, beq_self_eq_true] at hnamed
  cases hnamed

/-- The slot of a name holds its blob. -/
theorem Stores.found (h : s.Stores v)
    (hi : (List.range storeSlots).find? (slotNamed s.mem (s.base + storeOff) name) = some i) :
    i < storeSlots ∧ v.blobs.lookup name = some (load s.mem (storeSlot (s.base + storeOff) i + 24)
      (word s.mem (storeSlot (s.base + storeOff) i + 16)).toNat) := by
  obtain ⟨hlt, hnamed⟩ := find?_range hi
  exact ⟨hlt, h.holds.lookup.mpr ⟨⟨i, hlt⟩, slotEntry_of_named hnamed⟩⟩

/-! ## GET -/

theorem readName64_eq {p : UInt64} (hp : s.CallerBuffer p 8) (m : Mem) :
    readName64 m p = .ok (word m p.toNat) := by
  rw [readName64, span, if_pos hp.1]
  rfl

theorem secAddr_store (h : s.base ≠ 0) : s.secAddr storeOff = s.base + storeOff :=
  if_neg h

theorem Stores.store_ne (h : s.Stores v) : s.secAddr storeOff ≠ 0 := by
  rw [secAddr_store h.base]
  exact Nat.ne_of_gt (Nat.add_pos_right _ (by decide))

theorem Stores.storageGet (h : s.Stores v) {outPtr cap : UInt64} (hname : s.CallerBuffer namePtr 8)
    (hout : s.CallerBuffer outPtr cap.toNat) :
    (v.blobs.lookup (word s.mem namePtr.toNat) = none ∧
        s.storageGet namePtr outPtr cap = .ok (s, failure)) ∨
      ∃ blob, v.blobs.lookup (word s.mem namePtr.toNat) = some blob ∧
        ((cap.toNat < blob.length ∧ s.storageGet namePtr outPtr cap = .ok (s, tooSmall)) ∨
          (blob.length ≤ cap.toNat ∧ s.storageGet namePtr outPtr cap =
            .ok ({ s with mem := store s.mem outPtr.toNat blob }, UInt64.ofNat blob.length))) := by
  rw [Secure.storageGet, if_neg h.store_ne, readName64_eq hname, secAddr_store h.base]
  cases hfind : (List.range storeSlots).find?
      (slotNamed s.mem (s.base + storeOff) (word s.mem namePtr.toNat)) with
  | none =>
    refine Or.inl ⟨h.absent hfind, ?_⟩
    simp only [bind, Except.bind, hfind]
    rfl
  | some i =>
    obtain ⟨hlt, hblob⟩ := h.found hfind
    refine Or.inr ⟨_, hblob, ?_⟩
    obtain ⟨hlo, hhi⟩ := storeSlot_within hlt (s.base + storeOff)
    have hshort := v.short hblob
    simp only [bind, Except.bind, hfind]
    generalize hlen : word s.mem (storeSlot (s.base + storeOff) i + 16) = n at hshort ⊢
    generalize storeSlot (s.base + storeOff) i = slot at hlo hhi hshort ⊢
    rw [load_length] at hshort ⊢
    simp only [storeDataMax, storeSlots, storeSlotSize] at hshort hhi
    by_cases hcap : cap < n
    · exact Or.inl ⟨UInt64.lt_iff_toNat_lt.mp hcap, by rw [if_pos hcap]; rfl⟩
    · have hle : n.toNat ≤ cap.toNat := Nat.not_lt.mp fun hlt => hcap (UInt64.lt_iff_toNat_lt.mpr hlt)
      refine Or.inr ⟨hle, ?_⟩
      obtain ⟨hspan, hapart⟩ := hout
      simp only [storeSlots, storeSlotSize] at hapart
      rw [if_neg hcap, span, if_pos (by omega)]
      simp only
      rw [copy_eq_store (by omega), UInt64.ofNat_toNat]
      rfl

/-! ## PUT -/

/-- The slot that PUT has written. -/
def written (m : Mem) (slot : Nat) (name len : UInt64) (src : Nat) : Mem :=
  copy (setWord (setWord (setWord m slot storeMagic) (slot + 8) name) (slot + 16) len) src (slot + 24) len.toNat

section Written

variable {slot src : Nat} (hlen : len.toNat ≤ storeDataMax)

include hlen

theorem written_outside {x : Nat} (h : x < slot ∨ slot + storeSlotSize ≤ x) :
    written m slot name len src x = m x := by
  simp only [storeDataMax] at hlen
  simp only [storeSlotSize] at h
  rw [written, copy_outside (by omega), setWord_outside (by omega), setWord_outside (by omega),
    setWord_outside (by omega)]

variable (hsrc : len.toNat = 0 ∨ src + len.toNat ≤ slot ∨ slot + storeSlotSize ≤ src)

include hsrc

/-- The source is not in the slot, so it is copied as it was. -/
theorem written_eq : written m slot name len src =
    store (setWord (setWord (setWord m slot storeMagic) (slot + 8) name) (slot + 16) len) (slot + 24)
      (load m src len.toNat) := by
  simp only [storeDataMax] at hlen
  simp only [storeSlotSize] at hsrc
  rw [written, copy_eq_store (by omega)]
  congr 1
  refine load_congr fun x hlo hhi => ?_
  rw [setWord_outside (by omega), setWord_outside (by omega), setWord_outside (by omega)]

theorem slotEntry_written (hslot : storeSlot area i = slot) :
    slotEntry (written m slot name len src) area i = some (name, load m src len.toNat) := by
  have hmagic : slotTaken (written m slot name len src) area i = true := by
    rw [slotTaken, hslot, written_eq hlen hsrc, word_store_of_apart (by omega),
      word_setWord_of_apart (by omega), word_setWord_of_apart (by omega), word_setWord_self]
    rfl
  rw [slotEntry, if_pos hmagic, hslot, written_eq hlen hsrc, word_store_of_apart (by omega),
    word_setWord_of_apart (by omega), word_setWord_self, word_store_of_apart (by omega), word_setWord_self,
    load_store_self _ _ (load_length ..)]

end Written

/-- PUT writes a slot that no other name needs. -/
theorem Stores.written (h : s.Stores v) {src : Nat} {blob : List UInt8} (hi : i < storeSlots)
    (hlen : len.toNat ≤ storeDataMax) (hblob : blob = load s.mem src len.toNat)
    (hsrc : len.toNat = 0 ∨ src + len.toNat ≤ s.base + storeOff ∨
      s.base + storeOff + storeSlots * storeSlotSize ≤ src)
    (hslot : slotNamed s.mem (s.base + storeOff) name i = true ∨
      slotTaken s.mem (s.base + storeOff) i = false ∧ v.blobs.lookup name = none)
    (hfits : v.Fits name blob) :
    Stores { s with mem := written s.mem (storeSlot (s.base + storeOff) i) name len src }
      (v.put name blob hfits) where
  base := h.base
  holds := by
    obtain ⟨hlo, hhi⟩ := storeSlot_within hi (s.base + storeOff)
    have htable : table { s with mem := Secure.written s.mem (storeSlot (s.base + storeOff) i) name len src } =
        Function.update s.table ⟨i, hi⟩ (some (name, blob)) := by
      funext j
      by_cases hji : j = ⟨i, hi⟩
      · rw [hji, Function.update_self, hblob]
        exact slotEntry_written hlen (by omega) rfl
      · rw [Function.update_of_ne hji]
        refine slotEntry_congr (h.short j) fun x hx hx' => written_outside hlen ?_
        have hne : j.val ≠ i := fun heq => hji (Fin.ext heq)
        simp only [storeSlot, storeSlotSize] at hx hx' ⊢
        omega
    rw [htable]
    refine h.holds.insert ?_ ?_
    · intro name' blob' hentry
      rcases hslot with hnamed | ⟨hfree, -⟩
      · have := slotEntry_of_named hnamed
        exact (Prod.mk.inj (Option.some.inj (hentry.symm.trans this))).1
      · rw [show s.table ⟨i, hi⟩ = none from slotEntry_eq_none.mpr hfree] at hentry
        cases hentry
    · intro j blob' hj
      rcases hslot with hnamed | ⟨-, habsent⟩
      · exact h.holds.unique hj (slotEntry_of_named (i := i) hnamed)
      · exact absurd hj (h.holds.lookup_eq_none.mp habsent j blob')

theorem Stores.storagePut (h : s.Stores v) {dataPtr : UInt64} (hname : s.CallerBuffer namePtr 8)
    (hdata : s.CallerBuffer dataPtr len.toNat) :
    (¬ v.Fits (word s.mem namePtr.toNat) (load s.mem dataPtr.toNat len.toNat) ∧
        s.storagePut namePtr dataPtr len = .ok (s, failure)) ∨
      ∃ (hfits : v.Fits (word s.mem namePtr.toNat) (load s.mem dataPtr.toNat len.toNat)) (s' : Secure),
        s.storagePut namePtr dataPtr len = .ok (s', 0) ∧
        s'.Stores (v.put (word s.mem namePtr.toNat) (load s.mem dataPtr.toNat len.toNat) hfits) := by
  rcases Nat.lt_or_ge storeDataMax len.toNat with hlong | hlen
  · refine Or.inl ⟨fun hfits => ?_, ?_⟩
    · have := hfits.1
      rw [load_length] at this
      exact absurd hlong (Nat.not_lt.mpr this)
    · rw [Secure.storagePut, if_pos (Or.inr hlong)]
      rfl
  · rw [Secure.storagePut, if_neg (not_or.mpr ⟨h.store_ne, Nat.not_lt.mpr hlen⟩), readName64_eq hname,
      secAddr_store h.base]
    simp only [bind, Except.bind, scanSlots_eq]
    generalize hn : word s.mem namePtr.toNat = name
    cases hfind : (List.range storeSlots).find? (slotNamed s.mem (s.base + storeOff) name) with
    | some i =>
      -- the name has a slot
      obtain ⟨hi, hlookup⟩ := h.found hfind
      have hmem : name ∈ v.blobs := Finmap.mem_of_lookup_eq_some hlookup
      have hfits : v.Fits name (load s.mem dataPtr.toNat len.toNat) :=
        ⟨by rwa [load_length], Or.inl hmem⟩
      refine Or.inr ⟨hfits, _, ?_, h.written hi hlen rfl hdata.2 (Or.inl (find?_range hfind).2) hfits⟩
      simp only [span, if_pos hdata.1]
      rfl
    | none =>
      have habsent := h.absent hfind
      cases hfree : (List.range storeSlots).find? fun i => !slotTaken s.mem (s.base + storeOff) i with
      | some i =>
        obtain ⟨hi, hnot⟩ := find?_range hfree
        have hfree : slotTaken s.mem (s.base + storeOff) i = false := by rwa [Bool.not_eq_true'] at hnot
        have hroom : v.blobs.keys.card < storeSlots :=
          h.holds.free_iff.mpr ⟨⟨i, hi⟩, slotEntry_eq_none.mpr hfree⟩
        have hfits : v.Fits name (load s.mem dataPtr.toNat len.toNat) :=
          ⟨by rwa [load_length], Or.inr hroom⟩
        refine Or.inr ⟨hfits, _, ?_, h.written hi hlen rfl hdata.2 (Or.inr ⟨hfree, habsent⟩) hfits⟩
        simp only [span, if_pos hdata.1]
        rfl
      | none =>
        refine Or.inl ⟨?_, rfl⟩
        rintro ⟨-, hmem | hroom⟩
        · rw [← Finmap.lookup_isSome, habsent] at hmem
          cases hmem
        · obtain ⟨i, hi⟩ := h.holds.free_iff.mp hroom
          have := find?_range_none hfree i
          rw [slotEntry_eq_none.mp hi] at this
          cases this

/-! ## Runs -/

/-- One call is one step of the vault. -/
theorem Stores.step (h : s.Stores v) {e : StorageEvent} (hstep : StorageStep s e s') :
    ∃ v', v.Step e v' ∧ s'.Stores v' ∧ (e.Fails → s' = s) := by
  cases hstep with
  | put hname hdata hcall =>
    rcases h.storagePut hname hdata with ⟨hno, heq⟩ | ⟨hfits, s₁, heq, hstores⟩
    · cases heq.symm.trans hcall
      exact ⟨v, .refused hno, h, fun _ => rfl⟩
    · cases heq.symm.trans hcall
      exact ⟨_, .stored hfits, hstores, fun hfail => absurd rfl hfail⟩
  | @get _ namePtr outPtr cap result hname hout hcall =>
    rcases h.storageGet hname hout with ⟨hno, heq⟩ | ⟨blob, hblob, ⟨hsmall, heq⟩ | ⟨hcap, heq⟩⟩
    · cases heq.symm.trans hcall
      exact ⟨v, .absent hno, h, fun _ => rfl⟩
    · cases heq.symm.trans hcall
      exact ⟨v, .tooSmall hblob (by rwa [load_length]), h, fun _ => rfl⟩
    · cases heq.symm.trans hcall
      refine ⟨v, ?_, ?_, ?_⟩
      · have hstep : v.Step (.get _ (load s.mem outPtr.toNat cap.toNat) _ _) v :=
          .found hblob (by rwa [load_length])
        rwa [← load_store_within hcap] at hstep
      · refine h.congr rfl fun x hlo hhi => store_outside ?_
        obtain ⟨-, hapart⟩ := hout
        omega
      · -- a length is never one of the two error codes
        have hshort := v.short hblob
        simp only [storeDataMax] at hshort
        have hres : (UInt64.ofNat blob.length).toNat = blob.length :=
          UInt64.toNat_ofNat_of_lt' (Nat.lt_of_le_of_lt hshort (by decide))
        rintro (hfail | hfail)
        · rw [hfail, show failure.toNat = 2 ^ 64 - 1 from rfl] at hres
          omega
        · rw [hfail, show tooSmall.toNat = 2 ^ 64 - 2 from rfl] at hres
          omega
  | outside hbase hmem => exact ⟨v, .outside, h.congr hbase hmem, fun hfail => hfail.elim⟩

theorem Stores.run (h : s.Stores v) (hrun : LTS.Run StorageStep s es s') :
    ∃ v', LTS.Run Vault.Step v es v' ∧ s'.Stores v' := by
  induction hrun generalizing v with
  | nil => exact ⟨v, .nil v, h⟩
  | cons hstep _ ih =>
    obtain ⟨v₁, hv₁, h₁, -⟩ := h.step hstep
    obtain ⟨v', hv', h'⟩ := ih h₁
    exact ⟨v', .cons hv₁ hv', h'⟩

/-- The payload is installed and no slot is taken. -/
def EmptyStore (s : Secure) : Prop :=
  s.base ≠ 0 ∧ ∀ i : Fin storeSlots, slotTaken s.mem (s.base + storeOff) i = false

theorem EmptyStore.stores (h : s.EmptyStore) : s.Stores .empty :=
  ⟨h.1, .empty fun i => slotEntry_eq_none.mpr (h.2 i)⟩

end Secure
end Tanix.Monitor
