/-
# `Tanix.Net.Receive` — what an acknowledgement promises

`Heard` follows an established socket and counts, from the moment the following starts,
how far `rcv_nxt` has come.  Positions in the peer's stream are counted from there, so
they do not wrap.

    placed   the bytes put into the receive buffer, with their positions
    fins     the positions of the FINs that were taken
    acked    the positions up to which the socket has acknowledged
    read     what the application has read

The socket is honest when every position below an acknowledgement, and below a FIN that
was taken, is that of a placed byte or of a FIN (`Honest`).  Two things break this:
`rx_data` acknowledges all of a payload of which only a part finds room, and `rx_fin`
takes a FIN that lies ahead of `rcv_nxt`.  Nothing else does (`ack_honest`).
-/
import Tanix.Net.Acknowledge

namespace Tanix

open List LTS

namespace Net

/-! ## The history -/

structure Heard where
  sock : TcpSocket
  /-- in the buffer before the start -/
  early : Bytes
  read : Bytes
  /-- how far `rcv_nxt` has come -/
  covered : Nat
  placed : List (Nat × UInt8)
  fins : List Nat
  acked : List Nat

namespace Heard

/-- The history begins. -/
def start (s : TcpSocket) : Heard :=
  ⟨s, s.rx, [], 0, [], [], []⟩

/-- The position of a sequence number that is not behind `rcv_nxt`. -/
def position (h : Heard) (seq : UInt32) : Nat :=
  h.covered + (seq - h.sock.rcvNxt).toNat

/-- The bytes at consecutive positions. -/
def bytesFrom (pos : Nat) (data : Bytes) : List (Nat × UInt8) :=
  data.zipIdx.map fun p => (pos + p.2, p.1)

/-- The FIN of this segment is going to be taken. -/
def takesFin (s : TcpSocket) (g : TcpSeg) : Bool :=
  !s.dead && !g.rst && g.fin && seqGe g.finSeq (s.tookData g).rcvNxt

/-- The history after an operation that leads to `s'` and sends `os`. -/
def after (h : Heard) (op : SockOp) (s' : TcpSocket) (os : List TcpOut) : Heard :=
  let acked := h.acked ++ os.map fun o => h.position o.ack
  match op with
  | .segment g _ =>
    { h with
      sock := s'
      covered := h.position s'.rcvNxt
      placed := h.placed ++ bytesFrom (h.position g.seq) (s'.rx.drop h.sock.rx.length)
      fins := if takesFin h.sock g then h.fins ++ [h.position g.finSeq] else h.fins
      acked := acked }
  | .read n => { h with sock := s', read := h.read ++ (h.sock.appRead n).2, acked := acked }
  | _ => { h with sock := s', acked := acked }

/-- A step of the socket, followed. -/
def Step (h : Heard) (op : SockOp) (h' : Heard) : Prop :=
  ∃ s' os, h.sock.run op = .ok (s', os) ∧ h' = h.after op s' os

/-- A byte or a FIN stands at this position, and it has arrived. -/
def Arrived (h : Heard) (k : Nat) : Prop :=
  k ∈ h.placed.map Prod.fst ∨ k ∈ h.fins

/-- All that is acknowledged, and all that precedes a FIN, has arrived, and what has arrived was
read or can be. -/
structure Honest (h : Heard) : Prop where
  acks : ∀ n ∈ h.acked, ∀ k < n, h.Arrived k
  fins : ∀ f ∈ h.fins, ∀ k < f, h.Arrived k
  kept : h.read ++ h.sock.rx = h.early ++ h.placed.map Prod.snd

/-! ## The condition -/

/-- A segment whose payload finds room when it is in order, and whose FIN is not ahead. -/
structure InOrder (s : TcpSocket) (g : TcpSeg) : Prop where
  room : g.seq = s.rcvNxt → g.payload.length ≤ rxBuf - s.rx.length
  fin : g.fin = true → g.seq = s.rcvNxt ∨ g.finSeq = s.rcvNxt ∨ seqGe g.finSeq s.rcvNxt = false

/-- Every segment that is processed comes in order. -/
def KeepsOrder (h : Heard) : SockOp → Prop
  | .segment g _ => h.sock.dead = false → g.rst = false → InOrder h.sock g
  | _ => True

end Heard

/-! ## The invariant -/

/-- An established socket, and its history. -/
structure Heard.Inv (h : Heard) : Prop where
  live : h.sock.state = .established ∨ h.sock.state = .closeWait
  fit : h.sock.Fit
  full : ∀ k < h.covered, h.Arrived k
  finsLe : ∀ f ∈ h.fins, f ≤ h.covered
  ackedLe : ∀ n ∈ h.acked, n ≤ h.covered
  kept : h.read ++ h.sock.rx = h.early ++ h.placed.map Prod.snd

theorem Heard.Inv.honest {h : Heard} (hi : h.Inv) : h.Honest :=
  ⟨fun n hn k hk => hi.full k (Nat.lt_of_lt_of_le hk (hi.ackedLe n hn)),
    fun f hf k hk => hi.full k (Nat.lt_of_lt_of_le hk (hi.finsLe f hf)), hi.kept⟩

/-! ## A segment that flows -/

namespace TcpSocket

variable {s : TcpSocket} {g : TcpSeg}

/-- The payload that an established socket takes. -/
def inOrderData (s : TcpSocket) (g : TcpSeg) : Bytes :=
  if g.payload ≠ [] ∧ g.seq = s.rcvNxt then g.payload else []

theorem inOrderData_length (hord : Heard.InOrder s g) :
    (s.inOrderData g).length ≤ 512 - s.rx.length := by
  unfold inOrderData
  split
  · rename_i h
    exact hord.room h.2
  · exact Nat.zero_le _

theorem tookData_rx (hord : Heard.InOrder s g) : (s.tookData g).rx = s.rx ++ s.inOrderData g := by
  unfold tookData inOrderData
  split
  · rename_i h
    rw [accept, Nat.min_eq_left (hord.room h.2), take_length]
  · rw [append_nil]

theorem tookData_rcvNxt (s : TcpSocket) (g : TcpSeg) :
    (s.tookData g).rcvNxt = s.rcvNxt + UInt32.ofNat (s.inOrderData g).length := by
  unfold tookData inOrderData
  split
  · rfl
  · exact (UInt32.add_zero _).symm

/-- A FIN that is taken comes right after the data. -/
theorem InOrder.finSeq (hord : Heard.InOrder s g) (hfin : g.fin = true)
    (hge : seqGe g.finSeq (s.tookData g).rcvNxt = true) : g.finSeq = (s.tookData g).rcvNxt := by
  rw [tookData_rcvNxt] at hge ⊢
  unfold inOrderData at hge ⊢
  rcases eq_or_ne g.seq s.rcvNxt with hseq | hseq
  · rcases eq_or_ne g.payload [] with hp | hp
    · rw [if_neg fun hc => hc.1 hp, TcpSeg.finSeq, hseq, hp]
    · rw [if_pos ⟨hp, hseq⟩, TcpSeg.finSeq, hseq]
  · rw [if_neg fun hc => hseq hc.2] at hge ⊢
    have hzero : s.rcvNxt + UInt32.ofNat ([] : Bytes).length = s.rcvNxt := UInt32.add_zero _
    rw [hzero] at hge ⊢
    rcases hord.fin hfin with hc | hc | hc
    · exact absurd hc hseq
    · exact hc
    · rw [hge] at hc
      cases hc

theorem takeFin_rcvNxt (s : TcpSocket) (f : UInt32) (ph : Bool) :
    (s.takeFin f ph).rcvNxt = f + 1 := by
  obtain ⟨_, _, he, -⟩ := s.takeFin_eq f ph
  rw [he]

theorem tookBody_state (h : s.state = .established ∨ s.state = .closeWait) (g : TcpSeg)
    (ph : Bool) :
    (s.tookBody g ph).state = .established ∨ (s.tookBody g ph).state = .closeWait := by
  rcases tookBody_state_cases s g ph with hs | ⟨-, -, hs⟩
  · rw [hs]
    exact h
  · exact Or.inr hs

/-- How far an in-order segment moves `rcv_nxt`: over its data, and over its FIN. -/
theorem tookBody_moves (hord : Heard.InOrder s g) (ph : Bool) :
    ((s.tookBody g ph).rcvNxt - s.rcvNxt).toNat = (s.inOrderData g).length +
      if g.fin = true ∧ seqGe g.finSeq (s.tookData g).rcvNxt = true then 1 else 0 := by
  have hlen := inOrderData_length hord
  unfold tookBody tookFin
  split
  · rename_i h
    rw [takeFin_rcvNxt, InOrder.finSeq hord h.1 h.2, tookData_rcvNxt, UInt32.add_assoc]
    have hone : UInt32.ofNat (s.inOrderData g).length + 1 =
        UInt32.ofNat ((s.inOrderData g).length + 1) := (UInt32.ofNat_add _ _).symm
    rw [hone, toNat_add_sub _ (by omega)]
  · rw [tookData_rcvNxt, toNat_add_sub _ (by omega)]
    rfl

variable {o : TcpOut}

/-- The segments a flowing socket sends acknowledge what it had, what it has after the data, or what
it has after the FIN. -/
theorem mem_flowing_acks
    (ho : o ∈ (if g.syn then [s.sendAck g.peerMac g.peerIp] else []) ++ s.bodyAcks g false) :
    o.ack = s.rcvNxt ∨ o.ack = (s.tookData g).rcvNxt ∨ o.ack = (s.tookBody g false).rcvNxt := by
  rcases mem_append.mp ho with h | h
  · split at h
    · rw [mem_singleton.mp h]
      exact Or.inl rfl
    · cases h
  rcases mem_append.mp h with h | h
  · split at h
    · cases h
    · rw [mem_singleton.mp h]
      exact Or.inr (Or.inl rfl)
  · split at h
    · rw [mem_singleton.mp h]
      exact Or.inr (Or.inr rfl)
    · cases h

theorem flowing_acks_le (hord : Heard.InOrder s g)
    (ho : o ∈ (if g.syn then [s.sendAck g.peerMac g.peerIp] else []) ++ s.bodyAcks g false) :
    (o.ack - s.rcvNxt).toNat ≤ ((s.tookBody g false).rcvNxt - s.rcvNxt).toNat := by
  have hlen := inOrderData_length hord
  rcases mem_flowing_acks ho with h | h | h
  · rw [h, UInt32.sub_self]
    exact Nat.zero_le _
  · rw [h, tookData_rcvNxt, toNat_add_sub _ (by omega), tookBody_moves hord]
    exact Nat.le_add_right _ _
  · exact Nat.le_of_eq (by rw [h])

variable {s' : TcpSocket} {now : Nat} {os : List TcpOut}

/-- A segment on an established socket flows. -/
theorem ByState.of_live (h : ByState s g now s' os)
    (hlive : s.state = .established ∨ s.state = .closeWait) : s' = s.tookBody g false ∧
      os = (if g.syn then [s.sendAck g.peerMac g.peerIp] else []) ++ s.bodyAcks g false := by
  cases h with
  | flowing _ => exact ⟨rfl, rfl⟩
  | stray hst | opened hst | silent hst | answered hst | reopened hst | pending hst
  | completed hst =>
    rw [hst] at hlive
    rcases hlive with h' | h' <;> cases h'

end TcpSocket

/-! ## The step -/

namespace Heard

variable {h : Heard} {s' : TcpSocket} {os : List TcpOut}

theorem bytesFrom_fst (pos : Nat) (data : Bytes) {k : Nat} :
    k ∈ (bytesFrom pos data).map Prod.fst ↔ pos ≤ k ∧ k < pos + data.length := by
  unfold bytesFrom
  rw [List.map_map]
  constructor
  · intro hk
    obtain ⟨⟨b, i⟩, hp, rfl⟩ := List.mem_map.mp hk
    have hlt := snd_lt_of_mem_zipIdx hp
    simp only [Function.comp]
    omega
  · rintro ⟨hle, hlt⟩
    have hi : k - pos < data.length := by omega
    refine List.mem_map.mpr ⟨(data[k - pos], k - pos), ?_, ?_⟩
    · exact mem_zipIdx_iff_getElem?.mpr (getElem?_eq_getElem hi)
    · simp only [Function.comp]
      omega

theorem bytesFrom_snd (pos : Nat) (data : Bytes) : (bytesFrom pos data).map Prod.snd = data := by
  unfold bytesFrom
  rw [List.map_map]
  exact zipIdx_map_fst 0 data

/-- An operation that receives nothing. -/
theorem Inv.still (hi : h.Inv) (rd : Bytes) (os : List TcpOut) (hfit : s'.Fit)
    (hlive : s'.state = .established ∨ s'.state = .closeWait)
    (hrx : rd ++ s'.rx = h.sock.rx) (hacks : ∀ o ∈ os, o.ack = h.sock.rcvNxt) :
    Inv { h with
      sock := s', read := h.read ++ rd
      acked := h.acked ++ os.map fun o => h.position o.ack } where
  live := hlive
  fit := hfit
  full := hi.full
  finsLe := hi.finsLe
  ackedLe := by
    intro n hn
    rcases mem_append.mp hn with hn | hn
    · exact hi.ackedLe n hn
    · obtain ⟨o, ho, rfl⟩ := List.mem_map.mp hn
      rw [position, hacks o ho, UInt32.sub_self]
      exact Nat.le_refl _
  kept := by
    rw [append_assoc, hrx]
    exact hi.kept

theorem position_rcvNxt (h : Heard) : h.position h.sock.rcvNxt = h.covered := by
  rw [position, UInt32.sub_self]
  rfl

variable {g : TcpSeg} {now : Nat}

/-- A segment that is not processed. -/
theorem Inv.unprocessed (hi : h.Inv) (hfit : s'.Fit) (hstate : s'.state = h.sock.state)
    (hrx : s'.rx = h.sock.rx) (hnxt : s'.rcvNxt = h.sock.rcvNxt) (hno : takesFin h.sock g = false) :
    (h.after (.segment g now) s' []).Inv := by
  have hlive : s'.state = .established ∨ s'.state = .closeWait := by
    rw [hstate]
    exact hi.live
  have hstill := hi.still [] [] hfit hlive hrx (by simp)
  rw [append_nil] at hstill
  have heq : h.after (.segment g now) s' [] = { h with
      sock := s'
      acked := h.acked ++ ([] : List TcpOut).map fun o => h.position o.ack } := by
    unfold after
    simp only [hrx, hnxt, hno, position_rcvNxt, drop_length, Bool.false_eq_true, if_false]
    rw [show bytesFrom (h.position g.seq) [] = [] from rfl, append_nil]
  rw [heq]
  exact hstill

variable {s t : TcpSocket}

/-- A segment that flows, by what it brings: data in order, and a FIN after it. -/
theorem Inv.flowing (hi : h.Inv) (hfit : t.Fit) (hlink : TcpSocket.SameLink h.sock t)
    (hd : h.sock.dead = false) (hr : g.rst = false) (hord : InOrder t g) :
    (h.after (.segment g now) (t.tookBody g false)
      ((if g.syn then [t.sendAck g.peerMac g.peerIp] else []) ++ t.bodyAcks g false)).Inv := by
  have hmoves := t.tookBody_moves hord false
  have hrx : (t.tookBody g false).rx = h.sock.rx ++ t.inOrderData g := by
    rw [TcpSocket.tookBody, (TcpSocket.sameBufs_tookFin _ g false).rx, TcpSocket.tookData_rx hord,
      hlink.rx]
  have htakes : takesFin h.sock g = true ↔
      (g.fin = true ∧ seqGe g.finSeq (t.tookData g).rcvNxt = true) := by
    have hnxt : (h.sock.tookData g).rcvNxt = (t.tookData g).rcvNxt := by
      rw [TcpSocket.tookData_rcvNxt, TcpSocket.tookData_rcvNxt, TcpSocket.inOrderData,
        TcpSocket.inOrderData, hlink.rcvNxt]
    rw [takesFin, hd, hr, hnxt]
    simp
  -- how far the socket has come
  have hcov : h.position (t.tookBody g false).rcvNxt =
      h.covered + (t.inOrderData g).length + if takesFin h.sock g = true then 1 else 0 := by
    rw [position, ← hlink.rcvNxt, hmoves, Nat.add_assoc]
    simp only [htakes]
  have hpos : t.inOrderData g ≠ [] → h.position g.seq = h.covered := by
    intro hne
    have hseq : g.seq = t.rcvNxt := by
      unfold TcpSocket.inOrderData at hne
      split at hne
      · rename_i hc
        exact hc.2
      · exact absurd rfl hne
    rw [hseq, hlink.rcvNxt, position_rcvNxt]
  have hfinpos : takesFin h.sock g = true →
      h.position g.finSeq = h.covered + (t.inOrderData g).length := by
    intro ht
    obtain ⟨hfin, hge⟩ := htakes.mp ht
    have hlen := TcpSocket.inOrderData_length hord
    rw [position, TcpSocket.InOrder.finSeq hord hfin hge, ← hlink.rcvNxt,
      TcpSocket.tookData_rcvNxt, toNat_add_sub _ (by omega)]
  have hdata : (t.tookBody g false).rx.drop h.sock.rx.length = t.inOrderData g := by
    rw [hrx, drop_left]
  have hlive : t.state = .established ∨ t.state = .closeWait := by
    rw [hlink.state]
    exact hi.live
  refine ⟨TcpSocket.tookBody_state hlive g false, hfit.tookBody g false, ?_, ?_, ?_, ?_⟩
  · intro k hk
    simp only [after] at hk
    rw [hcov] at hk
    unfold Arrived
    simp only [after, hdata, map_append, mem_append]
    rcases Nat.lt_or_ge k h.covered with hlt | hge
    · rcases hi.full k hlt with hp | hf
      · exact Or.inl (Or.inl hp)
      · refine Or.inr ?_
        split
        · exact mem_append_left _ hf
        · exact hf
    rcases Nat.lt_or_ge k (h.covered + (t.inOrderData g).length) with hlt | hge'
    · have hne : t.inOrderData g ≠ [] := by
        intro hc
        rw [hc, length_nil] at hlt
        omega
      refine Or.inl (Or.inr ((bytesFrom_fst _ _).mpr ?_))
      rw [hpos hne]
      exact ⟨hge, hlt⟩
    · -- the one position left is that of the FIN
      refine Or.inr ?_
      split at hk
      · rename_i ht
        rw [if_pos ht, hfinpos ht]
        exact mem_append_right _ (mem_singleton.mpr (by omega))
      · omega
  · intro f hf
    simp only [after] at hf ⊢
    rw [hcov]
    split at hf
    · rename_i ht
      rcases mem_append.mp hf with hf | hf
      · have hle := hi.finsLe f hf
        omega
      · rw [mem_singleton.mp hf, hfinpos ht]
        exact Nat.le_add_right _ _
    · have hle := hi.finsLe f hf
      omega
  · intro n hn
    simp only [after] at hn ⊢
    rcases mem_append.mp hn with hn | hn
    · have hle := hi.ackedLe n hn
      rw [hcov]
      omega
    · obtain ⟨o, ho, rfl⟩ := List.mem_map.mp hn
      have hle := TcpSocket.flowing_acks_le hord ho
      rw [hlink.rcvNxt] at hle
      exact Nat.add_le_add_left hle _
  · simp only [after, hdata, map_append, bytesFrom_snd]
    rw [hrx, ← append_assoc, hi.kept, append_assoc]

theorem Inv.segment (hi : h.Inv) (hord : h.sock.dead = false → g.rst = false → InOrder h.sock g)
    (hr : h.sock.rxSegment g now = .ok (s', os)) : (h.after (.segment g now) s' os).Inv := by
  have hseg := TcpSocket.rxSegment_segment hi.fit hr
  cases hseg with
  | ignored hd => exact hi.unprocessed hi.fit rfl rfl rfl (by simp [takesFin, hd])
  | reset hd hrst =>
    exact hi.unprocessed ⟨hi.fit.inflight, hi.fit.sent, hi.fit.out, hi.fit.rx⟩ rfl rfl rfl
      (by simp [takesFin, hrst])
  | processed hd hrst hby =>
    have hlink := TcpSocket.sameLink_ackedBy h.sock g
    obtain ⟨hroom, hfin⟩ := hord hd hrst
    rw [← hlink.rcvNxt] at hroom hfin
    rw [← hlink.rx] at hroom
    have hlive := hi.live
    rw [← hlink.state] at hlive
    obtain ⟨rfl, rfl⟩ := hby.of_live hlive
    exact hi.flowing (hi.fit.ackedBy g) hlink hd hrst ⟨hroom, hfin⟩

variable {op : SockOp} {h' : Heard}

theorem Inv.step (hi : h.Inv) (hk : KeepsOrder h op) (hs : Step h op h') : h'.Inv := by
  obtain ⟨s', os, hrun, rfl⟩ := hs
  have hfit : s'.Fit := hi.fit.does ⟨os, hrun⟩
  cases hin : op.inbound with
  | true =>
    cases op with
    | segment g now => exact hi.segment hk hrun
    | write | read | close | takeNotify | poll => cases hin
  | false =>
    have hl := TcpSocket.run_local hin hrun
    have hlive := hi.live
    rw [← hl.state] at hlive
    have hacks : ∀ o ∈ os, o.ack = h.sock.rcvNxt := by
      cases op with
      | segment => cases hin
      | poll now =>
        intro o ho
        cases TcpSocket.poll_ok hrun with
        | quiet | gaveUp => cases ho
        | handshake _ hst =>
          rcases hst with h | h <;> rcases hi.live with h' | h' <;> rw [h] at h' <;> cases h'
        | resent | fresh | fin | finAgain =>
          rw [mem_singleton.mp ho]
          rfl
      | write | read | close | takeNotify =>
        cases hrun
        simp
    have hstill := hi.still (op.reads h.sock) os hfit hlive hl.rx hacks
    cases op with
    | segment => cases hin
    | read n => exact hstill
    | write | close | takeNotify | poll =>
      simp only [SockOp.reads, append_nil] at hstill
      exact hstill

theorem Inv.start (hfit : s.Fit) (hlive : s.state = .established ∨ s.state = .closeWait) :
    (start s).Inv where
  live := hlive
  fit := hfit
  full k hk := absurd hk (Nat.not_lt_zero k)
  finsLe _ hf := absurd hf not_mem_nil
  ackedLe _ hn := absurd hn not_mem_nil
  kept := (append_nil _).symm

theorem ack_honest {s : TcpSocket} (hreach : s.Reachable)
    (hlive : s.state = .established ∨ s.state = .closeWait) {ops : List SockOp}
    (hrun : Run (guarded Step KeepsOrder) (start s) ops h) : h.Honest := by
  have hinv : h.Inv :=
    hrun.invariant_guarded (fun _ _ _ hi hk hs => hi.step hk hs) (Inv.start hreach.fit hlive)
  exact hinv.honest

/-! ## Two histories -/

instance (s : TcpSocket) (g : TcpSeg) : Decidable (InOrder s g) :=
  decidable_of_iff ((g.seq = s.rcvNxt → g.payload.length ≤ rxBuf - s.rx.length) ∧
    (g.fin = true → g.seq = s.rcvNxt ∨ g.finSeq = s.rcvNxt ∨ seqGe g.finSeq s.rcvNxt = false))
    ⟨fun h => ⟨h.1, h.2⟩, fun h => ⟨h.1, h.2⟩⟩

instance (h : Heard) (op : SockOp) : Decidable (KeepsOrder h op) :=
  match op with
  | .segment g _ => inferInstanceAs (Decidable (h.sock.dead = false → g.rst = false → _))
  | .write _ | .read _ | .close | .takeNotify | .poll _ => inferInstanceAs (Decidable True)

/-- The followed operation as a function; `none` where it panics. -/
def next (h : Heard) (op : SockOp) : Option Heard :=
  match h.sock.run op with
  | .ok (s', os) => some (h.after op s' os)
  | .error _ => none

theorem next_step (hn : h.next op = some h') : Step h op h' := by
  unfold next at hn
  split at hn
  · rename_i s' os ho
    cases hn
    exact ⟨s', os, ho, rfl⟩
  · cases hn

/-- The FIN of the peer, after the payload of its segment. -/
def finSeg (seq : UInt32) (payload : Bytes) : TcpSeg :=
  { peerSeg seq 0x70008 false true payload with fin := true }

/-- Two bytes, then one more with the FIN, and a read between them. -/
theorem ack_honest_threeHeard : ∃ (s : TcpSocket) (h : Heard), s.Reachable ∧
    s.state = .established ∧ h.acked = [2, 3, 4] ∧ h.fins = [3] ∧ h.read = [9] ∧ h.Honest := by
  obtain ⟨s, hs, hp⟩ := listener_reaches accepts
    (p := fun s => s.state == .established && (exec (nextGuarded next KeepsOrder) (start s)
      [.segment (peerSeg 101 0x70008 false true [9, 8]) 0, .read 1,
        .segment (finSeg 103 [7]) 0]).any fun h =>
          h.acked == [2, 3, 4] && h.fins == [3] && h.read == [9]) (by decide +kernel)
  simp only [Bool.and_eq_true, beq_iff_eq] at hp
  obtain ⟨h, hexec, ht⟩ := exec_any _ _ _ _ hp.2
  simp only [Bool.and_eq_true, beq_iff_eq] at ht
  exact ⟨s, h, hs, hp.1, ht.1.1, ht.1.2, ht.2,
    ack_honest hs (Or.inl hp.1) (Run.of_exec (fun _ _ _ => guarded_of_nextGuarded next_step) hexec)⟩

/-- A FIN that comes five bytes early is taken, and the five bytes are acknowledged with it. -/
theorem early_fin_covers_gap : ¬ ∀ (s : TcpSocket) (ops : List SockOp) (h : Heard), s.Reachable →
    s.state = .established ∨ s.state = .closeWait → Run Step (start s) ops h → h.Honest := by
  intro hall
  obtain ⟨s, hs, hp⟩ := listener_reaches accepts
    (p := fun s => s.state == .established &&
      (exec next (start s) [.segment (finSeg 106 []) 0]).any fun h =>
        h.acked == [6] && h.fins == [5] && h.placed == []) (by decide +kernel)
  simp only [Bool.and_eq_true, beq_iff_eq] at hp
  obtain ⟨h, hexec, ht⟩ := exec_any _ _ _ _ hp.2
  simp only [Bool.and_eq_true, beq_iff_eq] at ht
  have hon := hall s _ h hs (Or.inl hp.1) (Run.of_exec (fun _ _ _ => next_step) hexec)
  -- nothing stands at position 0
  rcases hon.acks 6 (by simp [ht.1.1]) 0 (by decide) with h0 | h0
  · rw [ht.2] at h0
    cases h0
  · rw [ht.1.2] at h0
    simp at h0

end Heard

end Net

end Tanix
