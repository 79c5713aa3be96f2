/-
# `Tanix.Arch.Acpi` — the ACPI tables

`kernel/src/arch/aarch64/acpi.rs`.  `probe` goes from the RSDP to the XSDT and from its
entries to the tables:

    MADT   interrupt controllers   a stream of records, type and length first
    SPCR   console                 one Generic Address Structure
    MCFG   PCIe                    entries of 16 bytes, segment 0 wanted

The parsers of the three tables find what the bytes of the table say (`parseTable_eq`), and
over a list of tables the result is what they say together (`foldl_parseTable`).  But an entry is
validated against the signature of four blanks before its own signature is looked at, so
`parseXsdt` skips each of them (`parseXsdt_eq`).
-/
import Tanix.Lib.Bytes
import Tanix.Lib.Memory

namespace Tanix.Acpi

open Memory List
open Bytes (ascii)

/-! ## The code -/

variable (m : Mem)

def rd16 (a : Nat) : Nat := fromLe (load m a 2)
def rd32 (a : Nat) : Nat := fromLe (load m a 4)
def rd64 (a : Nat) : Nat := fromLe (load m a 8)

/-- The 8-bit sum. -/
def checksum (bs : List UInt8) : UInt8 :=
  bs.foldl (· + ·) 0

/-- The header at `addr`: the length, twice, when signature and checksum are right. -/
def validTable (addr : Nat) (expect : List UInt8) : Option (Nat × Nat) :=
  if addr % 4 ≠ 0 ∨ 0x800000000000 < addr then none
  else if load m addr 4 ≠ expect then none
  else
    let len := rd32 m (addr + 4)
    if len < 36 ∨ 0x1000000 < len then none
    else if checksum (load m addr len) ≠ 0 then none
    else some (len, len)

/-- `0` is what the tables do not describe. -/
structure AcpiInfo where
  gicDistBase : Nat
  gicRedistBase : Nat
  itsBase : Nat
  uartBase : Nat
  ecamBase : Nat
  deriving DecidableEq, Repr

def AcpiInfo.default : AcpiInfo :=
  { gicDistBase := 0, gicRedistBase := 0, itsBase := 0, uartBase := 0, ecamBase := 0 }

def rsdpXsdt (rsdp : Nat) : Option Nat :=
  if rsdp = 0 ∨ rsdp % 8 ≠ 0 then none
  else if load m rsdp 8 ≠ ascii "RSD PTR " then none
  else if m (rsdp + 15) < 2 then none
  else
    let xsdt := rd64 m (rsdp + 24)
    if xsdt = 0 then none
    else if checksum (load m rsdp 20) ≠ 0 then none
    else some xsdt

variable (out : AcpiInfo)

/-- One record of the MADT. -/
def madtRecord (a : Nat) (stype : UInt8) (slen : Nat) (out : AcpiInfo) : AcpiInfo :=
  if stype = 0x03 ∧ 24 ≤ slen then { out with gicDistBase := rd64 m (a + 8) }
  else if stype = 0x04 ∧ 16 ≤ slen then
    if out.gicRedistBase = 0 then { out with gicRedistBase := rd64 m (a + 4) } else out
  else if stype = 0x0B ∧ 16 ≤ slen then
    if out.itsBase = 0 then { out with itsBase := rd64 m (a + 8) } else out
  else out

def madtLoop (m : Mem) (addr len off : Nat) (out : AcpiInfo) : AcpiInfo :=
  if off + 2 ≤ len then
    let stype := m (addr + off)
    let slen := (m (addr + off + 1)).toNat
    if slen < 2 ∨ len < off + slen then out
    else madtLoop m addr len (off + slen) (madtRecord m (addr + off) stype slen out)
  else out
termination_by len - off

def parseMadt (addr len : Nat) (out : AcpiInfo) : AcpiInfo :=
  madtLoop m addr len 44 out

def parseSpcr (addr _len : Nat) (out : AcpiInfo) : AcpiInfo :=
  let gas := addr + 40
  if m gas ≠ 0 then out
  else
    let uart := rd64 m (gas + 4)
    if uart ≠ 0 then { out with uartBase := uart } else out

def mcfgLoop (m : Mem) (addr len off : Nat) (out : AcpiInfo) : AcpiInfo :=
  if off + 16 ≤ len then
    let base := rd64 m (addr + off)
    let seg := rd16 m (addr + off + 8)
    if seg = 0 ∧ base ≠ 0 then { out with ecamBase := base }
    else mcfgLoop m addr len (off + 16) out
  else out
termination_by len - off

def parseMcfg (addr len : Nat) (out : AcpiInfo) : AcpiInfo :=
  mcfgLoop m addr len 44 out

/-- The parser for a table's signature. -/
def parseTable (entry tlen : Nat) (out : AcpiInfo) : AcpiInfo :=
  let sig := load m entry 4
  if sig = ascii "MADT" then parseMadt m entry tlen out
  else if sig = ascii "SPCR" then parseSpcr m entry tlen out
  else if sig = ascii "MCFG" then parseMcfg m entry tlen out
  else out

/-- The body of the loop over the XSDT. -/
def parseEntry (entry : Nat) (out : AcpiInfo) : AcpiInfo :=
  if entry = 0 then out
  else
    match validTable m entry (ascii "    ") with
    | none => out
    | some (_, tlen) => parseTable m entry tlen out

def parseXsdt (xsdt : Nat) (out : AcpiInfo) : AcpiInfo :=
  match validTable m xsdt (ascii "XSDT") with
  | none => out
  | some (_, len) =>
    (List.range ((len - 36) / 8)).foldl (fun out i => parseEntry m (rd64 m (xsdt + 36 + i * 8)) out) out

def probe (rsdp : Nat) : Option AcpiInfo :=
  match rsdpXsdt m rsdp with
  | none => none
  | some xsdt =>
    let info := parseXsdt m xsdt .default
    if info.gicDistBase = 0 ∨ info.uartBase = 0 then none else some info

/-! ## What the tables say -/

variable (t : List UInt8)

/-- A little-endian number inside of a table. -/
def field (off n : Nat) : Nat :=
  fromLe ((t.drop off).take n)

def signature : List UInt8 :=
  t.take 4

/-- The records of a stream, up to the first that does not fit. -/
def records : Nat → List UInt8 → List (List UInt8)
  | 0, _ => []
  | fuel + 1, t =>
    if t.length < 2 ∨ field t 1 1 < 2 ∨ t.length < field t 1 1 then []
    else t.take (field t 1 1) :: records fuel (t.drop (field t 1 1))

/-- The base addresses in the records of one type. -/
def bases (stype size off : Nat) (rs : List (List UInt8)) : List Nat :=
  (rs.filter fun r => field r 0 1 = stype ∧ size ≤ r.length).map (field · off 8)

variable (ts : List (List UInt8))

/-- The records of the interrupt controller tables. -/
def controllers : List (List UInt8) :=
  (ts.filter (signature · = ascii "MADT")).flatMap fun t => records t.length (t.drop 44)

/-- The consoles that are memory mapped. -/
def consoles : List Nat :=
  ((ts.filter fun t => signature t = ascii "SPCR" ∧ field t 40 1 = 0).map (field · 44 8)).filter (· ≠ 0)

/-- Pieces of 16 bytes. -/
def pieces : Nat → List UInt8 → List (List UInt8)
  | 0, _ => []
  | fuel + 1, t => if t.length < 16 then [] else t.take 16 :: pieces fuel (t.drop 16)

/-- The windows of segment 0. -/
def windows (es : List (List UInt8)) : List Nat :=
  ((es.filter (field · 8 2 = 0)).map (field · 0 8)).filter (· ≠ 0)

/-- The first window of each PCIe table. -/
def ecams : List Nat :=
  (ts.filter (signature · = ascii "MCFG")).filterMap fun t => (windows (pieces t.length (t.drop 44))).head?

/-- The first that is not zero. -/
def firstNonzero (l : List Nat) : Nat :=
  (l.find? (· ≠ 0)).getD 0

/-- What records add to what is known: the last distributor counts, and the first
redistributor and translator. -/
def AcpiInfo.addRecords (rs : List (List UInt8)) : AcpiInfo :=
  { out with
    gicDistBase := (bases 0x03 24 8 rs).getLastD out.gicDistBase
    gicRedistBase := firstNonzero (out.gicRedistBase :: bases 0x04 16 4 rs)
    itsBase := firstNonzero (out.itsBase :: bases 0x0B 16 8 rs) }

/-- What tables add to what is known. -/
def AcpiInfo.add : AcpiInfo :=
  { out.addRecords (controllers ts) with
    uartBase := (consoles ts).getLastD out.uartBase
    ecamBase := (ecams ts).getLastD out.ecamBase }

/-- The bytes of a table, whatever its signature is. -/
def tableAt (a : Nat) : Option (List UInt8) :=
  (validTable m a (load m a 4)).map fun h => load m a h.2

/-- The addresses in a root table. -/
def pointers : List Nat :=
  ((List.range ((t.length - 36) / 8)).map fun i => field t (36 + i * 8) 8).filter (· ≠ 0)

/-- The valid tables below a root table. -/
def tables (xsdt : Nat) : List (List UInt8) :=
  ((tableAt m xsdt).filter (signature · = ascii "XSDT")).elim [] fun t => (pointers t).filterMap (tableAt m)

/-- What the firmware describes, unless a console or a distributor is missing. -/
def described (rsdp : Nat) : Option AcpiInfo :=
  ((rsdpXsdt m rsdp).map fun xsdt => AcpiInfo.default.add (tables m xsdt)).filter fun info =>
    info.gicDistBase ≠ 0 ∧ info.uartBase ≠ 0

/-! ## The parsers -/

section Lists

variable {α : Type}

theorem getLastD_append (l l' : List α) (d : α) : (l ++ l').getLastD d = l'.getLastD (l.getLastD d) := by
  rw [getLastD_eq_getLast?, getLastD_eq_getLast?, getLastD_eq_getLast?, getLast?_append]
  cases l'.getLast? <;> rfl

theorem firstNonzero_cons (x : Nat) (l : List Nat) :
    firstNonzero (x :: l) = if x = 0 then firstNonzero l else x := by
  rw [firstNonzero, find?_cons]
  by_cases hx : x = 0
  · rw [if_pos hx, decide_eq_false (not_not.mpr hx)]
    rfl
  · rw [if_neg hx, decide_eq_true hx]
    rfl

theorem firstNonzero_append (o : Nat) (l l' : List Nat) :
    firstNonzero (firstNonzero (o :: l) :: l') = firstNonzero (o :: (l ++ l')) := by
  rw [← cons_append]
  induction o :: l with
  | nil => rfl
  | cons x l ih =>
    rw [cons_append, firstNonzero_cons x, firstNonzero_cons x]
    split
    · exact ih
    · rename_i hx
      rw [firstNonzero_cons, if_neg hx]

theorem firstNonzero_singleton (o : Nat) : firstNonzero [o] = o := by
  rw [firstNonzero_cons]
  split
  · rename_i ho
    exact ho.symm
  · rfl

theorem firstNonzero_pair (o x : Nat) : firstNonzero [o, x] = if o = 0 then x else o := by
  rw [firstNonzero_cons, firstNonzero_singleton]

end Lists

section Add

variable {out : AcpiInfo} {rs rs' : List (List UInt8)} {ts ts' : List (List UInt8)}

theorem bases_append (stype size off : Nat) (rs rs' : List (List UInt8)) :
    bases stype size off (rs ++ rs') = bases stype size off rs ++ bases stype size off rs' := by
  rw [bases, bases, bases, filter_append, map_append]

theorem addRecords_append : (out.addRecords rs).addRecords rs' = out.addRecords (rs ++ rs') := by
  simp only [AcpiInfo.addRecords, bases_append, getLastD_append, firstNonzero_append]

theorem addRecords_nil : out.addRecords [] = out := by
  simp only [AcpiInfo.addRecords, bases, filter_nil, map_nil, getLastD_nil, firstNonzero_singleton]

theorem add_append : (out.add ts).add ts' = out.add (ts ++ ts') := by
  have hc : controllers (ts ++ ts') = controllers ts ++ controllers ts' := by
    rw [controllers, controllers, controllers, filter_append, flatMap_append]
  have hu : consoles (ts ++ ts') = consoles ts ++ consoles ts' := by
    rw [consoles, consoles, consoles, filter_append, map_append, filter_append]
  have he : ecams (ts ++ ts') = ecams ts ++ ecams ts' := by
    rw [ecams, ecams, ecams, filter_append, filterMap_append]
  simp only [AcpiInfo.add, AcpiInfo.addRecords, hc, hu, he, bases_append, getLastD_append, firstNonzero_append]

end Add

section Parse

variable {m : Mem} {addr len off a n : Nat} {out : AcpiInfo}

theorem field_load {k : Nat} (h : off + k ≤ n) : field (load m a n) off k = fromLe (load m (a + off) k) := by
  rw [field, load_slice m a h]

theorem field_byte (h : off < n) : field (load m a n) off 1 = (m (a + off)).toNat := by
  rw [field_load h]
  rfl

/-- One record is of the type and long enough, or it is not. -/
theorem bases_load {size : Nat} (stype : UInt8) (hoff : off + 8 ≤ size) (hn : 2 ≤ n) :
    bases stype.toNat size off [load m a n] = if m a = stype ∧ size ≤ n then [rd64 m (a + off)] else [] := by
  have htype : field (load m a n) 0 1 = stype.toNat ↔ m a = stype := by
    rw [field_byte (by omega)]
    exact UInt8.toNat_inj
  rw [bases, filter_singleton, load_length]
  simp only [htype]
  by_cases h : m a = stype ∧ size ≤ n
  · rw [if_pos h, decide_eq_true h, cond_true, map_singleton, field_load (by omega), rd64]
  · rw [if_neg h, decide_eq_false h, cond_false, map_nil]

theorem madtRecord_eq (hn : 2 ≤ n) : madtRecord m a (m a) n out = out.addRecords [load m a n] := by
  have h₃ : bases 0x03 24 8 [load m a n] = if m a = 0x03 ∧ 24 ≤ n then [rd64 m (a + 8)] else [] :=
    bases_load 0x03 (by decide) hn
  have h₄ : bases 0x04 16 4 [load m a n] = if m a = 0x04 ∧ 16 ≤ n then [rd64 m (a + 4)] else [] :=
    bases_load 0x04 (by decide) hn
  have h₁₁ : bases 0x0B 16 8 [load m a n] = if m a = 0x0B ∧ 16 ≤ n then [rd64 m (a + 8)] else [] :=
    bases_load 0x0B (by decide) hn
  rw [AcpiInfo.addRecords, h₃, h₄, h₁₁, madtRecord]
  -- at most one of the three conditions holds
  by_cases hdist : m a = 0x03 ∧ 24 ≤ n
  · have hredist : ¬ (m a = 0x04 ∧ 16 ≤ n) := fun h => absurd (hdist.1.symm.trans h.1) (by decide)
    have hits : ¬ (m a = 0x0B ∧ 16 ≤ n) := fun h => absurd (hdist.1.symm.trans h.1) (by decide)
    simp only [if_pos hdist, if_neg hredist, if_neg hits, firstNonzero_singleton]
    rfl
  · by_cases hredist : m a = 0x04 ∧ 16 ≤ n
    · have hits : ¬ (m a = 0x0B ∧ 16 ≤ n) := fun h => absurd (hredist.1.symm.trans h.1) (by decide)
      simp only [if_neg hdist, if_pos hredist, if_neg hits, firstNonzero_singleton, firstNonzero_pair]
      split <;> rfl
    · by_cases hits : m a = 0x0B ∧ 16 ≤ n
      · simp only [if_neg hdist, if_neg hredist, if_pos hits, firstNonzero_singleton, firstNonzero_pair]
        split <;> rfl
      · simp only [if_neg hdist, if_neg hredist, if_neg hits, firstNonzero_singleton]
        rfl

theorem madtLoop_eq {fuel : Nat} (hfuel : len - off ≤ fuel) :
    madtLoop m addr len off out = out.addRecords (records fuel (load m (addr + off) (len - off))) := by
  induction fuel generalizing off out with
  | zero =>
    rw [madtLoop, if_neg (by omega)]
    exact addRecords_nil.symm
  | succ fuel ih =>
    rw [madtLoop, records, load_length]
    by_cases hoff : off + 2 ≤ len
    · rw [if_pos hoff, field_byte (by omega)]
      by_cases hslen : (m (addr + off + 1)).toNat < 2 ∨ len < off + (m (addr + off + 1)).toNat
      · rw [if_pos hslen, if_pos (by omega), addRecords_nil]
      · have htake : (load m (addr + off) (len - off)).take (m (addr + off + 1)).toNat =
            load m (addr + off) (m (addr + off + 1)).toNat :=
          load_slice m (addr + off) (k := 0) (by omega)
        rw [if_neg hslen, if_neg (by omega), ih (by omega), madtRecord_eq (by omega), addRecords_append,
          htake, ← load_drop, Nat.sub_sub, ← Nat.add_assoc addr off, singleton_append]
    · rw [if_neg hoff, if_pos (Or.inl (by omega)), addRecords_nil]

theorem windows_cons (e : List UInt8) (es : List (List UInt8)) :
    windows (e :: es) = if field e 8 2 = 0 ∧ field e 0 8 ≠ 0 then field e 0 8 :: windows es else windows es := by
  rw [windows, filter_cons]
  by_cases hseg : field e 8 2 = 0
  · rw [if_pos (decide_eq_true hseg), map_cons, filter_cons]
    simp only [hseg, true_and, decide_eq_true_eq]
    rfl
  · rw [if_neg (by rwa [decide_eq_true_eq]), if_neg fun h => hseg h.1]
    rfl

theorem mcfgLoop_eq {fuel : Nat} (hfuel : len - off ≤ fuel) :
    mcfgLoop m addr len off out =
      { out with
        ecamBase := (windows (pieces fuel (load m (addr + off) (len - off)))).head?.getD out.ecamBase } := by
  induction fuel generalizing off with
  | zero =>
    rw [mcfgLoop, if_neg (by omega)]
    rfl
  | succ fuel ih =>
    rw [mcfgLoop, pieces, load_length]
    by_cases hoff : off + 16 ≤ len
    · have htake : (load m (addr + off) (len - off)).take 16 = load m (addr + off) 16 :=
        load_slice m (addr + off) (k := 0) (by omega)
      have hseg : field (load m (addr + off) 16) 8 2 = rd16 m (addr + off + 8) := field_load (by decide)
      have hbase : field (load m (addr + off) 16) 0 8 = rd64 m (addr + off) := field_load (by decide)
      rw [if_pos hoff, if_neg (show ¬ len - off < 16 by omega), htake, windows_cons, hseg, hbase]
      by_cases hfound : rd16 m (addr + off + 8) = 0 ∧ rd64 m (addr + off) ≠ 0
      · rw [if_pos hfound, if_pos hfound]
        rfl
      · rw [if_neg hfound, if_neg hfound, ih (by omega), ← load_drop, Nat.sub_sub, Nat.add_assoc]
    · rw [if_neg hoff, if_pos (by omega)]
      rfl

/-! ### One table -/

theorem controllers_singleton :
    controllers [t] = if signature t = ascii "MADT" then records t.length (t.drop 44) else [] := by
  rw [controllers, filter_singleton]
  by_cases h : signature t = ascii "MADT"
  · rw [if_pos h, decide_eq_true h, cond_true, flatMap_singleton]
  · rw [if_neg h, decide_eq_false h, cond_false, flatMap_nil]

theorem consoles_singleton :
    consoles [t] =
      if signature t = ascii "SPCR" ∧ field t 40 1 = 0 ∧ field t 44 8 ≠ 0 then [field t 44 8] else [] := by
  rw [consoles, filter_singleton]
  by_cases h : signature t = ascii "SPCR" ∧ field t 40 1 = 0
  · rw [decide_eq_true h, cond_true, map_singleton, filter_singleton]
    by_cases hu : field t 44 8 = 0
    · rw [if_neg fun h => h.2.2 hu, decide_eq_false (not_not.mpr hu), cond_false]
    · rw [if_pos ⟨h.1, h.2, hu⟩, decide_eq_true hu, cond_true]
  · rw [if_neg fun hu => h ⟨hu.1, hu.2.1⟩, decide_eq_false h, cond_false, map_nil, filter_nil]

theorem ecams_singleton :
    ecams [t] =
      if signature t = ascii "MCFG" then (windows (pieces t.length (t.drop 44))).head?.toList else [] := by
  rw [ecams, filter_singleton]
  by_cases h : signature t = ascii "MCFG"
  · rw [if_pos h, decide_eq_true h, cond_true, filterMap_cons]
    cases (windows (pieces t.length (t.drop 44))).head? <;> rfl
  · rw [if_neg h, decide_eq_false h, cond_false, filterMap_nil]

theorem parseSpcr_eq (hn : 52 ≤ n) :
    parseSpcr m a n out =
      if field (load m a n) 40 1 = 0 ∧ field (load m a n) 44 8 ≠ 0 then
        { out with uartBase := field (load m a n) 44 8 } else out := by
  have huart : field (load m a n) 44 8 = rd64 m (a + 40 + 4) := field_load (by omega)
  have hspace : field (load m a n) 40 1 = 0 ↔ m (a + 40) = 0 := by
    rw [field_byte (by omega)]
    exact UInt8.toNat_inj (b := 0)
  rw [parseSpcr, huart]
  simp only [hspace]
  by_cases h : m (a + 40) = 0
  · simp only [h, ne_eq, not_true_eq_false, if_false, true_and]
  · simp only [h, ne_eq, not_false_eq_true, if_true, false_and, if_false]

/-- The parser of a table finds what its bytes say. -/
theorem parseTable_eq (hn : 36 ≤ n) (hspcr : load m a 4 = ascii "SPCR" → 52 ≤ n) :
    parseTable m a n out = out.add [load m a n] := by
  have hsig : signature (load m a n) = load m a 4 := load_slice m a (k := 0) (by omega)
  have hrest : (load m a n).drop 44 = load m (a + 44) (n - 44) := (load_drop m a n 44).symm
  rw [parseTable, AcpiInfo.add, controllers_singleton, consoles_singleton, ecams_singleton, hsig, load_length,
    hrest]
  have hms : ascii "MADT" ≠ ascii "SPCR" := by decide
  have hmc : ascii "MADT" ≠ ascii "MCFG" := by decide
  have hsc : ascii "SPCR" ≠ ascii "MCFG" := by decide
  by_cases hmadt : load m a 4 = ascii "MADT"
  · simp only [hmadt, if_true, if_neg hmc, if_neg fun h => hms (And.left h)]
    exact madtLoop_eq (Nat.sub_le n 44)
  · simp only [if_neg hmadt, addRecords_nil]
    by_cases hs : load m a 4 = ascii "SPCR"
    · simp only [hs, if_true, if_neg hsc, true_and, parseSpcr_eq (hspcr hs)]
      split <;> rfl
    · simp only [if_neg hs, if_neg fun h => hs (And.left h)]
      split
      · rw [parseMcfg, mcfgLoop_eq (Nat.sub_le n 44)]
        cases (windows (pieces n (load m (a + 44) (n - 44)))).head? <;> rfl
      · rfl

end Parse

/-! ## The entries are skipped -/

section Probe

variable {m : Mem} {out : AcpiInfo}

theorem validTable_signature {addr : Nat} {expect : List UInt8} {h : Nat × Nat}
    (hv : validTable m addr expect = some h) : load m addr 4 = expect := by
  rw [validTable] at hv
  split at hv
  · cases hv
  · split at hv
    · cases hv
    · rename_i hsig
      exact not_not.mp hsig

/-- A table with the signature that is asked for has none of the three. -/
theorem parseEntry_eq (entry : Nat) : parseEntry m entry out = out := by
  rw [parseEntry]
  split
  · rfl
  · split
    · rfl
    · rename_i hv
      rw [parseTable, validTable_signature hv, if_neg (by decide), if_neg (by decide), if_neg (by decide)]

theorem parseXsdt_eq (xsdt : Nat) : parseXsdt m xsdt out = out := by
  have hloop (l : List Nat) :
      l.foldl (fun out i => parseEntry m (rd64 m (xsdt + 36 + i * 8)) out) out = out := by
    induction l with
    | nil => rfl
    | cons i l ih => rw [foldl_cons, parseEntry_eq, ih]
  rw [parseXsdt]
  split
  · rfl
  · exact hloop _

theorem probe_eq_none (m : Mem) (rsdp : Nat) : probe m rsdp = none := by
  rw [probe]
  split
  · rfl
  · rw [parseXsdt_eq]
    rfl

/-- `probe` returns what the firmware describes exactly when it describes nothing. -/
theorem probe_iff_undescribed (m : Mem) (rsdp : Nat) :
    probe m rsdp = described m rsdp ↔ described m rsdp = none := by
  rw [probe_eq_none]
  exact eq_comm

end Probe

/-! ## A firmware -/

/-- A table, with the checksum it needs. -/
def table (sig : String) (body : List UInt8) : List UInt8 :=
  let t := ascii sig ++ le 4 (36 + body.length) ++ [1, 0] ++ List.replicate 26 0 ++ body
  t.set 9 (0 - checksum t)

def rsdpBytes (xsdt : Nat) : List UInt8 :=
  let t := ascii "RSD PTR " ++ List.replicate 7 0 ++ [2] ++ le 4 0 ++ le 4 36 ++ le 8 xsdt
  t.set 8 (0 - checksum (t.take 20))

/-- An RSDP at 8, and four tables. -/
def firmware : Mem :=
  let madt := table "MADT" (List.replicate 8 0 ++ ([3, 24] ++ List.replicate 6 0 ++ le 8 0x8000000 ++ le 8 0)
    ++ ([4, 16, 0, 0] ++ le 8 0x80A0000 ++ le 4 0))
  let spcr := table "SPCR" ([3, 0, 0, 0] ++ [0, 32, 0, 3] ++ le 8 0x9000000)
  let mcfg := table "MCFG" (List.replicate 8 0 ++ (le 8 0x4010000000 ++ le 2 0 ++ [0, 255] ++ le 4 0))
  let xsdt := table "XSDT" (le 8 0x200 ++ le 8 0x100 ++ le 8 0x180)
  [(0x100, madt), (0x180, spcr), (0x200, mcfg), (0x40, xsdt), (8, rsdpBytes 0x40)].foldl
    (fun m t => store m t.1 t.2) fun _ => 0

/-- Three valid tables, of which none is read. -/
theorem probe_misses_tables :
    ¬ ∀ (m : Mem) (rsdp : Nat) (info : AcpiInfo), described m rsdp = some info → probe m rsdp = some info := by
  intro hall
  have hdescribed : described firmware 8 = some
      { gicDistBase := 0x8000000, gicRedistBase := 0x80A0000, itsBase := 0,
        uartBase := 0x9000000, ecamBase := 0x4010000000 } := by
    decide +kernel
  have hprobe := hall firmware 8 _ hdescribed
  rw [probe_eq_none] at hprobe
  cases hprobe

end Tanix.Acpi
