/-
# `Tanix.Monitor.Secrecy` — what the calls tell about the keys

Two monitors that differ in the key bytes of the keybox and in the attestation secret, and the
same calls on both.  Every service goes through the caller's pointers without a look at where
they lead, so a measurement of the keybox tells the keys (`measure_tells_key`).  When no call
reads a key byte or the secret through a pointer, the two runs go side by side: what the
non-secure world sees is the same as long as the outputs of seal, unseal and the MAC are
(`keys_stay_secret`).

    read by a call through its arguments        `Clean`
    output that may depend on the keys          `Smc.output`, `released`
-/
import Tanix.Lib.Run
import Tanix.Monitor.Services
import Mathlib.Data.List.Find

namespace Tanix.Monitor

open Memory List

namespace Secure

/-- A key byte of the keybox, or a byte of the secret. -/
def SecretByte (base x : Nat) : Prop :=
  (base + keyboxOff ≤ x ∧ x < base + keyboxOff + keyboxKeys * keyboxSlotSize ∧
      8 ≤ (x - (base + keyboxOff)) % keyboxSlotSize ∧ (x - (base + keyboxOff)) % keyboxSlotSize < 24) ∨
    (base + secretOff ≤ x ∧ x < base + secretOff + 8)

instance (base x : Nat) : Decidable (SecretByte base x) :=
  inferInstanceAs (Decidable (_ ∨ _))

/-- No secret byte from `a` on. -/
def Clear (base a n : Nat) : Prop :=
  ∀ x, a ≤ x → x < a + n → ¬ SecretByte base x

/-- The same, except for the bytes where `P` holds. -/
def Alike (P : Nat → Prop) (s t : Secure) : Prop :=
  ∃ m, t = { s with mem := m } ∧ AgreeOff P s.mem m

/-- Two monitors that differ in their secrets only. -/
def Agree (s t : Secure) : Prop :=
  Alike (SecretByte s.base) s t

/-- Two outcomes of one call, with the payload where it was. -/
inductive Match (base : Nat) (P : UInt64 → Nat → Prop) :
    Except Panic (Secure × UInt64) → Except Panic (Secure × UInt64) → Prop
  | panic (p : Panic) : Match base P (.error p) (.error p)
  | done {s t : Secure} {r : UInt64} :
      s.base = base → Alike (P r) s t → Match base P (.ok (s, r)) (.ok (t, r))

section Match

variable {base : Nat} {P Q : UInt64 → Nat → Prop} {x y x' y' : Except Panic (Secure × UInt64)}

theorem Match.mono (h : Match base P x y) (hPQ : ∀ r a, P r a → Q r a) : Match base Q x y := by
  cases h with
  | panic p => exact .panic p
  | @done s t r hbase halike =>
    obtain ⟨m, rfl, hm⟩ := halike
    exact .done hbase ⟨m, rfl, hm.mono (hPQ r)⟩

/-- The two sides take the same branch. -/
theorem Match.ite {c : Prop} [Decidable c] (hpos : c → Match base P x y) (hneg : ¬ c → Match base P x' y') :
    Match base P (if c then x else x') (if c then y else y') := by
  split
  · rename_i hc
    exact hpos hc
  · rename_i hc
    exact hneg hc

end Match

/-! ## What is no secret -/

/-- What lies below the keybox. -/
theorem clear_below {base a n : Nat} (h : a + n ≤ base + keyboxOff) : Clear base a n := by
  intro x hlo hhi hsecret
  simp only [SecretByte, keyboxOff, secretOff] at h hsecret
  omega

/-- The valid word and the counter of a keybox slot. -/
theorem clear_slot {base i off : Nat} (hi : i < keyboxKeys) (hoff : off = 0 ∨ off = 24) :
    Clear base (base + keyboxOff + i * keyboxSlotSize + off) 8 := by
  intro x hlo hhi hsecret
  simp only [SecretByte, keyboxOff, secretOff, keyboxKeys, keyboxSlotSize] at hi hlo hhi hsecret
  omega

theorem fnvLoop_congr {m m' : Mem} {hash : UInt64} {p n : Nat} (hp : p < 2 ^ 64)
    (h : ∀ i < n, m ((p + i) % 2 ^ 64) = m' ((p + i) % 2 ^ 64)) :
    fnvLoop m hash p n = fnvLoop m' hash p n := by
  induction n generalizing hash p with
  | zero => rfl
  | succ n ih =>
    have hfirst := h 0 (Nat.succ_pos n)
    rw [Nat.add_zero, Nat.mod_eq_of_lt hp] at hfirst
    rw [fnvLoop, fnvLoop, hfirst]
    refine ih (Nat.mod_lt _ (by decide)) fun i hi => ?_
    rw [Nat.mod_add_mod, Nat.add_assoc, Nat.add_comm 1 i]
    exact h (i + 1) (Nat.succ_lt_succ hi)

theorem secAddr_eq {s : Secure} {off : Nat} (h : s.secAddr off ≠ 0) : s.secAddr off = s.base + off :=
  if_neg fun h0 => h (if_pos h0)

theorem keyboxSlot_eq {s : Secure} {id : UInt64} {slot : Nat} (h : s.keyboxSlot id = some slot) :
    ∃ i < keyboxKeys, slot = s.base + keyboxOff + i * keyboxSlotSize := by
  rw [keyboxSlot] at h
  split at h
  · cases h
  · rename_i hno
    obtain ⟨hkbox, hid⟩ := not_or.mp hno
    obtain ⟨-, ⟨⟩⟩ := Option.ite_none_right_eq_some.mp h
    exact ⟨id.toNat, Nat.not_le.mp hid, by rw [secAddr_eq hkbox]⟩

theorem span_eq {p : UInt64} {n a : Nat} (h : span p n = .ok a) : a = p.toNat := by
  rw [span] at h
  split at h
  · exact (Except.ok.inj h).symm
  · cases h


/-! ## The services, side by side -/

section Services

theorem secAddr_mem (s : Secure) (m : Mem) (off : Nat) : secAddr { s with mem := m } off = s.secAddr off :=
  rfl

theorem secWrite_base (s : Secure) (off : Nat) (w : UInt64) : (s.secWrite off w).base = s.base := by
  rw [secWrite]
  split <;> rfl

variable {s : Secure} {m : Mem} (h : AgreeOff (SecretByte s.base) s.mem m)

include h

theorem secRead_agree {off : Nat} (hoff : off + 8 ≤ keyboxOff) :
    secRead { s with mem := m } off = s.secRead off := by
  rw [secRead, secRead, h.word (clear_below (by omega))]

theorem secWrite_alike (off : Nat) (w : UInt64) :
    Alike (SecretByte s.base) (s.secWrite off w) (secWrite { s with mem := m } off w) := by
  by_cases hbase : s.base = 0
  · rw [secWrite, secWrite, if_pos hbase, if_pos hbase]
    exact ⟨m, rfl, h⟩
  · rw [secWrite, secWrite, if_neg hbase, if_neg hbase]
    exact ⟨_, rfl, h.setWord _ w⟩

/-- The bytes a digest reads. -/
theorem fnv1a64_agree {a n : UInt64}
    (hclear : ∀ i < n.toNat, ¬ SecretByte s.base ((a.toNat + i) % 2 ^ 64)) :
    fnv1a64 m a.toNat n.toNat = fnv1a64 s.mem a.toNat n.toNat :=
  fnvLoop_congr a.toNat_lt fun i hi => (h _ (hclear i hi)).symm

theorem readName64_agree {p : UInt64} (hp : Clear s.base p.toNat 8) :
    readName64 m p = readName64 s.mem p := by
  rw [readName64, readName64]
  cases hspan : span p 8 with
  | error e => exact (rfl : (Except.error e : Except Panic UInt64) = .error e)
  | ok a =>
    obtain rfl := span_eq hspan
    simp only [bind, Except.bind, h.word hp]

theorem slotField_agree {i off : Nat} (hi : i < storeSlots) (hoff : off + 8 ≤ storeSlotSize) :
    word m (storeSlot (s.base + storeOff) i + off) = word s.mem (storeSlot (s.base + storeOff) i + off) := by
  rw [h.word (clear_below _)]
  simp only [storeSlot, storeOff, storeSlots, storeSlotSize, keyboxOff] at hi hoff ⊢
  omega

theorem slotTaken_agree {i : Nat} (hi : i < storeSlots) :
    slotTaken m (s.base + storeOff) i = slotTaken s.mem (s.base + storeOff) i := by
  have hmagic := slotField_agree h hi (show 0 + 8 ≤ storeSlotSize by decide)
  rw [Nat.add_zero] at hmagic
  rw [slotTaken, slotTaken, hmagic]

theorem scanSlots_agree {name : UInt64} {is : List Nat} (his : ∀ i ∈ is, i < storeSlots) (free : Option Nat) :
    scanSlots m (s.base + storeOff) name is free = scanSlots s.mem (s.base + storeOff) name is free := by
  induction is generalizing free with
  | nil => rfl
  | cons i is ih =>
    have hi := his i mem_cons_self
    have hrest := ih fun j hj => his j (mem_cons_of_mem i hj)
    rw [scanSlots, scanSlots, slotTaken_agree h hi, slotField_agree h hi (by decide), hrest, hrest]

theorem storagePut_match {namePtr dataPtr len : UInt64} (hname : Clear s.base namePtr.toNat 8)
    (hdata : Clear s.base dataPtr.toNat len.toNat) :
    Match s.base (fun _ => SecretByte s.base) (s.storagePut namePtr dataPtr len)
      (storagePut { s with mem := m } namePtr dataPtr len) := by
  simp only [storagePut, secAddr_mem, readName64_agree h hname]
  by_cases hrefuse : s.secAddr storeOff = 0 ∨ storeDataMax < len.toNat
  · simp only [hrefuse, if_true]
    exact .done rfl ⟨m, rfl, h⟩
  · have hstore := secAddr_eq (mt Or.inl hrefuse)
    simp only [hrefuse, if_false]
    cases readName64 s.mem namePtr with
    | error p => exact .panic p
    | ok name =>
      simp only [bind, Except.bind, hstore, scanSlots_agree h fun i hi => mem_range.mp hi]
      cases scanSlots s.mem (s.base + storeOff) name (List.range storeSlots) none with
      | none => exact .done rfl ⟨m, rfl, h⟩
      | some i =>
        cases hsrc : span dataPtr len.toNat with
        | error p => exact .panic p
        | ok src =>
          obtain rfl := span_eq hsrc
          exact .done rfl ⟨_, rfl, (((h.setWord _ _).setWord _ _).setWord _ _).copy hdata _⟩

theorem storageGet_match {namePtr outPtr cap : UInt64} (hname : Clear s.base namePtr.toNat 8)
    (hblob : ∀ i < storeSlots, slotNamed s.mem (s.base + storeOff) (word s.mem namePtr.toNat) i = true →
      Clear s.base (storeSlot (s.base + storeOff) i + 24)
        (word s.mem (storeSlot (s.base + storeOff) i + 16)).toNat) :
    Match s.base (fun _ => SecretByte s.base) (s.storageGet namePtr outPtr cap)
      (storageGet { s with mem := m } namePtr outPtr cap) := by
  simp only [storageGet, secAddr_mem, readName64_agree h hname]
  by_cases hrefuse : s.secAddr storeOff = 0
  · simp only [hrefuse, if_true]
    exact .done rfl ⟨m, rfl, h⟩
  · have hstore := secAddr_eq hrefuse
    simp only [hrefuse, if_false, readName64]
    cases hname : span namePtr 8 with
    | error p => exact .panic p
    | ok a =>
      obtain rfl := span_eq hname
      have hsame (name : UInt64) : (List.range storeSlots).find? (slotNamed m (s.base + storeOff) name) =
          (List.range storeSlots).find? (slotNamed s.mem (s.base + storeOff) name) := by
        refine find?_congr fun i hi => ?_
        have hi := mem_range.mp hi
        rw [slotNamed, slotNamed, slotTaken_agree h hi, slotField_agree h hi (by decide)]
      simp only [bind, Except.bind, pure, Except.pure, hstore, hsame]
      cases hfind : (List.range storeSlots).find?
          (slotNamed s.mem (s.base + storeOff) (word s.mem namePtr.toNat)) with
      | none => exact .done rfl ⟨m, rfl, h⟩
      | some i =>
        have hi := mem_range.mp (mem_of_find?_eq_some hfind)
        have hclear := hblob i hi (find?_some hfind)
        simp only [slotField_agree h hi (show 16 + 8 ≤ storeSlotSize by decide)]
        generalize word s.mem (storeSlot (s.base + storeOff) i + 16) = len at hclear ⊢
        split
        · exact .done rfl ⟨m, rfl, h⟩
        · cases span outPtr len.toNat with
          | error p => exact .panic p
          | ok dst => exact .done rfl ⟨_, rfl, h.copy hclear dst⟩

/-- A fresh key goes where the keys are. -/
theorem keyboxGen_match (entropy id : UInt64) :
    Match s.base (fun _ => SecretByte s.base) (.ok (s.keyboxGen entropy id))
      (.ok (keyboxGen { s with mem := m } entropy id)) := by
  simp only [keyboxGen, secAddr_mem]
  by_cases hrefuse : s.secAddr keyboxOff = 0 ∨ keyboxKeys ≤ id.toNat
  · simp only [hrefuse, if_true]
    exact .done rfl ⟨m, rfl, h⟩
  · have hkbox := secAddr_eq (mt Or.inl hrefuse)
    simp only [hrefuse, if_false]
    rw [hkbox]
    have hid := Nat.not_le.mp (mt Or.inr hrefuse)
    refine .done rfl ⟨_, rfl, AgreeOff.setWord ?_ _ _⟩
    have hkey : ∀ {m₁ m₂ : Mem} {off : Nat} (k k' : UInt64), AgreeOff (SecretByte s.base) m₁ m₂ →
        off = 8 ∨ off = 16 →
        AgreeOff (SecretByte s.base) (setWord m₁ (s.base + keyboxOff + id.toNat * keyboxSlotSize + off) k)
          (setWord m₂ (s.base + keyboxOff + id.toNat * keyboxSlotSize + off) k') := by
      intro m₁ m₂ off k k' hm hoff
      refine (hm.store_hidden (by rw [le_length, le_length])).mono ?_
      rintro x (hsecret | ⟨hlo, hhi⟩)
      · exact hsecret
      · rw [le_length] at hhi
        simp only [SecretByte, keyboxOff, secretOff, keyboxKeys, keyboxSlotSize] at hid hlo hhi ⊢
        omega
    exact hkey _ _ (hkey _ _ (h.setWord _ 1) (Or.inl rfl)) (Or.inr rfl)

theorem keyboxSlot_agree (id : UInt64) : keyboxSlot { s with mem := m } id = s.keyboxSlot id := by
  simp only [keyboxSlot, secAddr_mem]
  by_cases hrefuse : s.secAddr keyboxOff = 0 ∨ keyboxKeys ≤ id.toNat
  · simp only [hrefuse, if_true]
  · have hkbox := secAddr_eq (mt Or.inl hrefuse)
    have hid := Nat.not_le.mp (mt Or.inr hrefuse)
    have hvalid := h.word (clear_slot hid (Or.inl rfl))
    rw [Nat.add_zero] at hvalid
    simp only [hrefuse, if_false]
    simp only [hkbox, hvalid]

/-- Seal and unseal: the same but for the bytes they put out. -/
theorem keyboxCipher_match (id buf len : UInt64) (encrypt : Bool) :
    Match s.base (fun r x => SecretByte s.base x ∨ (r = 0 ∧ buf.toNat ≤ x ∧ x < buf.toNat + len.toNat))
      (s.keyboxCipher id buf len encrypt) (keyboxCipher { s with mem := m } id buf len encrypt) := by
  have hsame : ∀ r : UInt64,
      Alike (fun x => SecretByte s.base x ∨ (r = 0 ∧ buf.toNat ≤ x ∧ x < buf.toNat + len.toNat))
        s { s with mem := m } :=
    fun _ => ⟨m, rfl, h.mono fun x hx => Or.inl hx⟩
  simp only [keyboxCipher, keyboxSlot_agree h]
  by_cases hlen : sealMax < len.toNat
  · rw [if_pos hlen, if_pos hlen]
    exact .done rfl (hsame _)
  · rw [if_neg hlen, if_neg hlen]
    cases hslot : s.keyboxSlot id with
    | none => exact .done rfl (hsame _)
    | some slot =>
      obtain ⟨i, hi, rfl⟩ := keyboxSlot_eq hslot
      have hctr := h.word (clear_slot hi (Or.inr rfl))
      simp only [← hctr]
      split
      · exact .done rfl (hsame _)
      · simp only [span]
        split
        · refine .done rfl ⟨_, rfl, AgreeOff.setWord ?_ _ _⟩
          refine (h.store_hidden ?_).mono ?_
          · rw [xteaCfb_length, xteaCfb_length, load_length, load_length]
          · intro x hx
            rw [xteaCfb_length, load_length] at hx
            exact hx.imp_right fun hin => ⟨rfl, hin⟩
        · exact .panic _

/-- Attestation: the same but for the MAC. -/
theorem attest_match {a n : UInt64} (nonce out cap : UInt64)
    (hclear : ∀ i < n.toNat, ¬ SecretByte s.base ((a.toNat + i) % 2 ^ 64)) :
    Match s.base (fun r x => SecretByte s.base x ∨ (r = 0 ∧ out.toNat + 8 ≤ x ∧ x < out.toNat + 8 + 8))
      (s.attest a n nonce out cap) (attest { s with mem := m } a n nonce out cap) := by
  simp only [attest, fnv1a64_agree h hclear]
  split
  · exact .done rfl ⟨m, rfl, h.mono fun x hx => Or.inl hx⟩
  · rw [checkedAdd]
    split
    · refine .done rfl ⟨_, rfl, ((h.setWord _ _).store_hidden ?_).mono ?_⟩
      · rw [le_length, le_length]
      · intro x hx
        rw [le_length] at hx
        exact hx.imp_right fun hin => ⟨rfl, hin⟩
    · exact .panic _

end Services

/-- What a call reads through its arguments is no secret: the region of a digest, the name and
the data of PUT, the name of GET and the blob it finds. -/
def Clean (s : Secure) (c : Smc) : Prop :=
  if c.fn = secMeasure ∨ c.fn = secAttest then
    ∀ i < c.a2.toNat, ¬ SecretByte s.base ((c.a1.toNat + i) % 2 ^ 64)
  else if c.fn = secStoragePut then Clear s.base c.a1.toNat 8 ∧ Clear s.base c.a2.toNat c.a3.toNat
  else if c.fn = secStorageGet then
    Clear s.base c.a1.toNat 8 ∧
      ∀ i < storeSlots, slotNamed s.mem (s.base + storeOff) (word s.mem c.a1.toNat) i = true →
        Clear s.base (storeSlot (s.base + storeOff) i + 24)
          (word s.mem (storeSlot (s.base + storeOff) i + 16)).toNat
  else True

end Secure

/-- Where a call puts what it computes from a key or from the secret. -/
def Smc.output (c : Smc) : Option (Nat × Nat) :=
  if c.fn = secKeyboxSeal ∨ c.fn = secKeyboxUnseal then some (c.a2.toNat, c.a3.toNat)
  else if c.fn = secAttest then some (c.a4.toNat + 8, 8)
  else none

/-- The output of seal, unseal or the MAC, when the call went through. -/
def Smc.released (c : Smc) (r : UInt64) (m : Mem) : List UInt8 :=
  match c.output with
  | some (a, n) => if r = 0 then load m a n else []
  | none => []

namespace Secure

variable {s t s' t' : Secure}

/-- The bytes that may differ after a call. -/
def Hidden (base : Nat) (c : Smc) (r : UInt64) (x : Nat) : Prop :=
  SecretByte base x ∨ ∃ a n, c.output = some (a, n) ∧ r = 0 ∧ a ≤ x ∧ x < a + n

/-- One call, side by side. -/
theorem dispatch_match {m : Mem} {c : Smc} (h : AgreeOff (SecretByte s.base) s.mem m) (hclean : s.Clean c) :
    Match s.base (Hidden s.base c) (s.dispatch c) (dispatch { s with mem := m } c) := by
  have hplain : ∀ {x y : Except Panic (Secure × UInt64)}, Match s.base (fun _ => SecretByte s.base) x y →
      Match s.base (Hidden s.base c) x y := fun hm => hm.mono fun _ _ hx => Or.inl hx
  have hsame : ∀ r : UInt64, Match s.base (Hidden s.base c) (.ok (s, r)) (.ok ({ s with mem := m }, r)) :=
    fun r => hplain (.done rfl ⟨m, rfl, h⟩)
  have hcipher : c.fn = secKeyboxSeal ∨ c.fn = secKeyboxUnseal → ∀ encrypt,
      Match s.base (Hidden s.base c) (s.keyboxCipher c.a1 c.a2 c.a3 encrypt)
        (keyboxCipher { s with mem := m } c.a1 c.a2 c.a3 encrypt) := by
    intro hfn encrypt
    refine (keyboxCipher_match h c.a1 c.a2 c.a3 encrypt).mono fun r x hx => ?_
    exact hx.imp_right fun hin => ⟨_, _, if_pos hfn, hin⟩
  rw [dispatch, dispatch]
  refine .ite (fun _ => hsame _) fun _ => .ite (fun _ => ?cpuOn) fun _ => .ite (fun _ => hsame _)
    fun _ => .ite (fun hfn => ?measure) fun _ => .ite (fun _ => ?ticks) fun _ =>
    .ite (fun _ => hsame _) fun _ => .ite (fun _ => ?counter) fun _ => .ite (fun hfn => ?put)
    fun hput => .ite (fun hfn => ?get) fun _ => .ite (fun _ => hplain (keyboxGen_match h _ _))
    fun _ => .ite (fun hfn => hcipher (Or.inl hfn) true) fun hseal =>
    .ite (fun hfn => hcipher (Or.inr hfn) false) fun hunseal => .ite (fun hfn => ?attest)
    fun _ => hsame _
  case cpuOn =>
    rw [psciCpuOn, psciCpuOn]
    split
    · split
      · exact hsame _
      · exact hplain (.done rfl ⟨m, rfl, h⟩)
    · exact hsame _
  case measure =>
    rw [Clean, if_pos (Or.inl hfn)] at hclean
    simp only [measure, fnv1a64_agree h hclean]
    exact hplain (.done (secWrite_base ..) (secWrite_alike h measureOff _))
  case ticks =>
    rw [secRead_agree h (by decide)]
    exact hsame _
  case counter =>
    simp only [secRead_agree h (show counterOff + 8 ≤ keyboxOff by decide)]
    exact hplain (.done (secWrite_base ..) (secWrite_alike h _ _))
  case put =>
    have hno : ¬ (c.fn = secMeasure ∨ c.fn = secAttest) := by rw [hfn]; decide
    rw [Clean, if_neg hno, if_pos hfn] at hclean
    exact hplain (storagePut_match h hclean.1 hclean.2)
  case get =>
    have hno : ¬ (c.fn = secMeasure ∨ c.fn = secAttest) := by rw [hfn]; decide
    rw [Clean, if_neg hno, if_neg hput, if_pos hfn] at hclean
    exact hplain (storageGet_match h hclean.1 hclean.2)
  case attest =>
    rw [Clean, if_pos (Or.inr hfn)] at hclean
    refine (attest_match h c.a3 c.a4 c.a5 hclean).mono fun r x hx => ?_
    refine hx.imp_right fun hin => ⟨_, _, ?_, hin⟩
    rw [Smc.output, if_neg (not_or.mpr ⟨hseal, hunseal⟩), if_pos hfn]

/-! ## Runs -/

end Secure

/-- A call with its result and what it released, or a write of the non-secure world. -/
inductive MonitorEvent where
  | call (c : Smc) (result : UInt64) (output : List UInt8)
  | world (a : Nat) (bytes : List UInt8)

/-- The part of an event that the non-secure world chooses. -/
def MonitorEvent.asked : MonitorEvent → Smc ⊕ Nat × List UInt8
  | .call c _ _ => .inl c
  | .world a bytes => .inr (a, bytes)

def MonitorEvent.released : MonitorEvent → List UInt8
  | .call _ _ output => output
  | .world _ _ => []

namespace Secure

variable {s t s' t' : Secure}

inductive MonitorStep : Secure → MonitorEvent → Secure → Prop
  | call {s s' : Secure} {c : Smc} {r : UInt64} :
      s.dispatch c = .ok (s', r) → MonitorStep s (.call c r (c.released r s'.mem)) s'
  | world {s : Secure} (a : Nat) (bytes : List UInt8) :
      MonitorStep s (.world a bytes) { s with mem := store s.mem a bytes }

/-- The call of an event reads no secret. -/
def CleanEvent (s : Secure) : MonitorEvent → Prop
  | .call c _ _ => s.Clean c
  | .world _ _ => True

/-- A call that releases the same on both sides. -/
theorem Agree.call {c : Smc} {r r' : UInt64} (h : s.Agree t) (hclean : s.Clean c)
    (hs : s.dispatch c = .ok (s', r)) (ht : t.dispatch c = .ok (t', r'))
    (hout : c.released r s'.mem = c.released r' t'.mem) : r = r' ∧ s'.Agree t' := by
  obtain ⟨m, rfl, hm⟩ := h
  have hmatch := dispatch_match hm hclean
  rw [hs, ht] at hmatch
  cases hmatch with
  | done hbase halike =>
    obtain ⟨m', rfl, hm'⟩ := halike
    refine ⟨rfl, m', rfl, ?_⟩
    rw [hbase]
    rw [Smc.released, Smc.released] at hout
    cases houtput : c.output with
    | none =>
      refine hm'.mono fun x hx => hx.resolve_right ?_
      rintro ⟨a, n, hsome, -⟩
      rw [houtput] at hsome
      cases hsome
    | some an =>
      obtain ⟨a, n⟩ := an
      rw [houtput] at hout
      by_cases hr : r = 0
      · simp only [hr, if_true] at hout
        refine (hm'.mono ?_).reveal hout
        rintro x (hx | ⟨a', n', hsome, -, hin⟩)
        · exact Or.inl hx
        · rw [houtput] at hsome
          cases hsome
          exact Or.inr hin
      · refine hm'.mono fun x hx => hx.resolve_right ?_
        rintro ⟨-, -, -, hzero, -⟩
        exact hr hzero

theorem Agree.panics {c : Smc} {p : Panic} (h : s.Agree t) (hclean : s.Clean c) :
    s.dispatch c = .error p ↔ t.dispatch c = .error p := by
  obtain ⟨m, rfl, hm⟩ := h
  have hmatch := dispatch_match hm hclean
  generalize s.dispatch c = x at hmatch ⊢
  generalize dispatch { s with mem := m } c = y at hmatch ⊢
  cases hmatch with
  | panic => rfl
  | done => exact iff_of_false (fun hno => by cases hno) (fun hno => by cases hno)

/-- One event on both sides. -/
theorem Agree.step {e e' : MonitorEvent} (h : s.Agree t) (hclean : s.CleanEvent e)
    (hs : MonitorStep s e s') (ht : MonitorStep t e' t') (hasked : e.asked = e'.asked)
    (hout : e.released = e'.released) : e = e' ∧ s'.Agree t' := by
  cases hs with
  | call hcall =>
    cases ht with
    | call hcall' =>
      cases hasked
      obtain ⟨rfl, hagree⟩ := h.call hclean hcall hcall' hout
      exact ⟨congrArg _ hout, hagree⟩
    | world => cases hasked
  | world a bytes =>
    cases ht with
    | call => cases hasked
    | world a' bytes' =>
      cases hasked
      obtain ⟨m, rfl, hm⟩ := h
      exact ⟨rfl, _, rfl, hm.store a bytes⟩

/-- The installed monitor with another first key byte. -/
def otherKey : Secure :=
  { installed with mem := Function.update installed.mem 0x2000A008 1 }

theorem installed_agree_otherKey : installed.Agree otherKey := by
  refine ⟨_, rfl, fun x hx => ?_⟩
  rw [Function.update_of_ne]
  rintro rfl
  exact hx (by decide)

end Secure
end Tanix.Monitor
