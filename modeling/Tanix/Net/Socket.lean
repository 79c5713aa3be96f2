/-
# `Tanix.Net.Socket` — what a socket can do

A socket is driven by segments, by the application and by polls (`SockOp`).  What one
inbound segment can come to is said here once:

    rx_ack        a total function of a socket that fits (`rxAck_ok`)
    payload, FIN  `tookData` and `tookFin`, with acknowledgements sent (`rxBody_ok`)
    rx_segment    ignored, reset, or the acknowledgement and then one of nine (`ByState`)
    poll          quiet, given up, or one segment sent (`Polls`)

`Fit` is the invariant of the two buffers: the outstanding segment lies in what has been
sent, that in the queue, and neither buffer is overfull.  It holds in every state of
every run from a fresh socket (`Reachable.fit`).
-/
import Tanix.Net.Tcp
import Tanix.Lib.Run

namespace Tanix

open List

namespace Net

/-! ## Sequence numbers -/

/-- Behind is: more than half the circle ahead. -/
theorem seqLt_iff {a b : UInt32} : seqLt a b = true ↔ 2 ^ 31 ≤ (a - b).toNat := by
  have hneg : (a - b).toInt32.toInt < 0 ↔ 2 ^ 32 ≤ 2 * (a - b).toNat :=
    BitVec.toInt_neg_iff
  rw [seqLt, decide_eq_true_iff, Int32.lt_iff_toInt_lt]
  constructor
  · intro h
    have := hneg.mp h
    omega
  · intro h
    exact hneg.mpr (by omega)

theorem toNat_add_sub (a : UInt32) {n : Nat} (h : n < 2 ^ 32) :
    (a + UInt32.ofNat n - a).toNat = n := by
  have ha := a.toNat_lt
  rw [UInt32.toNat_sub, UInt32.toNat_add, UInt32.toNat_ofNat']
  omega

namespace TcpSocket

variable {s s' : TcpSocket} {g : TcpSeg} {now : Nat} {os : List TcpOut}

/-! ## The two buffers -/

structure Fit (s : TcpSocket) : Prop where
  inflight : s.inflight ≤ s.sent
  sent : s.sent ≤ s.out.length
  out : s.out.length ≤ txBuf
  rx : s.rx.length ≤ rxBuf

variable (ack : UInt32) (s)

/-- The bytes that `rx_ack` takes off the queue. -/
def advance : Nat :=
  min (ack - s.dataBase).toNat s.sent

/-- The socket after the first part of `rx_ack`. -/
def consumed : TcpSocket :=
  if s.advance ack = 0 then s
  else
    { s with
      out := s.out.drop (s.advance ack)
      dataBase := s.dataBase + UInt32.ofNat (s.advance ack)
      sndNxt := s.dataBase + UInt32.ofNat (s.advance ack) +
        UInt32.ofNat (s.out.length - s.advance ack)
      sent := s.sent - s.advance ack
      inflight := s.inflight - s.advance ack }

theorem advance_le : s.advance ack ≤ s.sent :=
  Nat.min_le_right _ _

variable {s}

theorem consume_ok (h : s.Fit) (ack : UInt32) : s.consume ack = .ok (s.consumed ack) := by
  have hle : s.advance ack ≤ s.out.length := Nat.le_trans (s.advance_le ack) h.sent
  have hslice : slice s.out (s.advance ack) s.out.length = .ok (s.out.drop (s.advance ack)) := by
    rw [slice_eq_ok, take_length]
    exact ⟨⟨hle, Nat.le_refl _⟩, rfl⟩
  rw [consume, consumed]
  change (if 0 < s.advance ack then _ else _) = _
  rcases Nat.eq_zero_or_pos (s.advance ack) with h0 | hpos
  · rw [if_neg (by omega), if_pos h0]
    rfl
  · rw [if_pos hpos, if_neg (by omega)]
    change (slice s.out (s.advance ack) s.out.length >>= _) = _
    rw [hslice]
    change Except.ok _ = _
    congr 1
    -- an emptied queue starts at `snd_nxt`, which is where it starts anyway
    have hbase : (if (s.out.drop (s.advance ack)).length = 0 then
        s.dataBase + UInt32.ofNat (s.advance ack) +
          UInt32.ofNat (s.out.drop (s.advance ack)).length
        else s.dataBase + UInt32.ofNat (s.advance ack)) =
        s.dataBase + UInt32.ofNat (s.advance ack) := by
      split
      · rename_i h0
        rw [h0]
        exact UInt32.add_zero _
      · rfl
    rw [TcpSocket.mk.injEq]
    simp only [true_and, and_true]
    exact ⟨hbase, by rw [length_drop]; rfl, rfl, rfl⟩

theorem Fit.consumed (h : s.Fit) (ack : UInt32) : (s.consumed ack).Fit := by
  unfold TcpSocket.consumed
  split
  · exact h
  · have hle := s.advance_le ack
    have h1 := h.inflight
    have h2 := h.sent
    have h3 := h.out
    refine ⟨?_, ?_, ?_, h.rx⟩ <;> simp only [length_drop] <;> omega

/-- The socket after `rx_ack`. -/
def acked (s : TcpSocket) (ack : UInt32) : TcpSocket :=
  ((s.consumed ack).ackSyn ack).ackFin ack

theorem rxAck_ok (h : s.Fit) (ack : UInt32) : s.rxAck ack = .ok (s.acked ack) := by
  rw [rxAck, consume_ok h]
  rfl

/-- A change that leaves the buffers and their counts alone. -/
structure SameBufs (s s' : TcpSocket) : Prop where
  out : s'.out = s.out
  sent : s'.sent = s.sent
  inflight : s'.inflight = s.inflight
  rx : s'.rx = s.rx

theorem SameBufs.fit (h : SameBufs s s') (hs : s.Fit) : s'.Fit := by
  refine ⟨?_, ?_, ?_, ?_⟩
  · rw [h.inflight, h.sent]
    exact hs.inflight
  · rw [h.sent, h.out]
    exact hs.sent
  · rw [h.out]
    exact hs.out
  · rw [h.rx]
    exact hs.rx

variable (s)

/-- What `rx_ack` changes past the queue; a dead socket stays dead. -/
theorem acked_eq : ∃ a t f n d, s.acked ack = { s.consumed ack with
    synAcked := a, rtoDeadline := t, finAcked := f, notify := n, dead := d } ∧
    (s.dead = true → d = true) := by
  have hsyn : ∃ a t, (s.consumed ack).ackSyn ack =
      { s.consumed ack with synAcked := a, rtoDeadline := t } := by
    unfold ackSyn
    split <;> exact ⟨_, _, rfl⟩
  have hdead : (s.consumed ack).dead = s.dead := by
    unfold consumed
    split <;> rfl
  obtain ⟨a, t, hsyn⟩ := hsyn
  rw [acked, hsyn, ackFin]
  split
  · split
    · exact ⟨_, _, _, _, _, rfl, fun _ => rfl⟩
    · exact ⟨_, _, _, _, _, rfl, hdead.trans⟩
  · exact ⟨_, _, _, _, _, rfl, hdead.trans⟩

variable {s}

theorem Fit.acked (h : s.Fit) (ack : UInt32) : (s.acked ack).Fit := by
  have hc := h.consumed ack
  obtain ⟨_, _, _, _, _, he, -⟩ := s.acked_eq ack
  rw [he]
  exact { hc with }

/-! ## Payload and FIN -/

variable (s g)

/-- The socket after an in-order payload. -/
def accept : TcpSocket :=
  { s with
    rx := s.rx ++ g.payload.take (min g.payload.length (rxBuf - s.rx.length))
    rcvNxt := s.rcvNxt + UInt32.ofNat g.payload.length
    notify := { s.notify with data := true } }

/-- The socket after the payload of a segment, if it has one. -/
def tookData : TcpSocket :=
  if g.payload ≠ [] ∧ g.seq = s.rcvNxt then s.accept g else s

variable (synPhase : Bool)

/-- The socket after the FIN of a segment, if it has one that is not old. -/
def tookFin : TcpSocket :=
  if g.fin = true ∧ seqGe g.finSeq s.rcvNxt = true then s.takeFin g.finSeq synPhase else s

/-- The socket after payload and FIN. -/
def tookBody : TcpSocket :=
  (s.tookData g).tookFin g synPhase

variable {s g}

theorem rxData_ok (h : s.rx.length ≤ rxBuf) (hp : g.payload ≠ []) :
    s.rxData g = .ok (s.tookData g, [(s.tookData g).sendAck g.peerMac g.peerIp]) := by
  unfold rxData tookData
  rcases eq_or_ne g.seq s.rcvNxt with hseq | hseq
  · rw [if_pos hseq, if_pos ⟨hp, hseq⟩]
    have hroom : subUsize rxBuf s.rx.length = .ok (rxBuf - s.rx.length) :=
      subUsize_eq_ok.mpr ⟨h, rfl⟩
    rw [hroom]
    rfl
  · rw [if_neg hseq, if_neg fun hc => hseq hc.2]
    rfl

variable (s)

theorem tookFin_of_not_fin (hf : g.fin = false) (synPhase : Bool) : s.tookFin g synPhase = s := by
  unfold tookFin
  simp [hf]

/-- The acknowledgements sent for payload and FIN. -/
def bodyAcks (g : TcpSeg) (synPhase : Bool) : List TcpOut :=
  (if g.payload = [] then [] else [(s.tookData g).sendAck g.peerMac g.peerIp]) ++
    if g.fin then [(s.tookBody g synPhase).sendAck g.peerMac g.peerIp] else []

variable {s}

theorem rxPayload_ok (h : s.rx.length ≤ rxBuf) : s.rxPayload g = .ok (s.tookData g,
    if g.payload = [] then [] else [(s.tookData g).sendAck g.peerMac g.peerIp]) := by
  unfold rxPayload
  rcases eq_or_ne g.payload [] with hp | hp
  · rw [if_pos hp, if_pos hp, tookData, if_neg fun hc => hc.1 hp]
  · rw [if_neg hp, if_neg hp, rxData_ok h hp]

theorem rxBody_ok (h : s.rx.length ≤ rxBuf) (synPhase : Bool) :
    s.rxBody g synPhase = .ok (s.tookBody g synPhase, s.bodyAcks g synPhase) := by
  unfold rxBody
  rw [rxPayload_ok h]
  unfold bodyAcks tookBody
  cases hf : g.fin with
  | true =>
    simp only [tookFin, hf, true_and]
    rfl
  | false =>
    rw [tookFin_of_not_fin _ hf]
    change Except.ok _ = _
    simp

theorem Fit.tookData (h : s.Fit) (g : TcpSeg) : (s.tookData g).Fit := by
  unfold TcpSocket.tookData
  split
  · refine ⟨h.inflight, h.sent, h.out, ?_⟩
    have hrx := h.rx
    simp only [accept, length_append, length_take]
    omega
  · exact h

variable (s)

theorem takeFin_eq (finSeq : UInt32) (synPhase : Bool) : ∃ n d, s.takeFin finSeq synPhase =
    { s with
      rcvNxt := finSeq + 1, rxFin := true, notify := n, dead := d
      state := if s.state = .established ∧ synPhase = false then .closeWait else s.state } ∧
    (s.dead = true → d = true) := by
  unfold takeFin
  simp only
  split
  · exact ⟨_, _, rfl, fun _ => rfl⟩
  · exact ⟨_, _, rfl, id⟩

variable (g)

theorem sameBufs_tookFin : SameBufs s (s.tookFin g synPhase) := by
  obtain ⟨_, _, he, -⟩ := s.takeFin_eq g.finSeq synPhase
  unfold tookFin
  rw [he]
  split <;> exact ⟨rfl, rfl, rfl, rfl⟩

/-- What payload and FIN change. -/
theorem tookBody_eq : ∃ r x n f d, s.tookBody g synPhase = { s with
    rx := r, rcvNxt := x, notify := n, rxFin := f, dead := d
    state := (s.tookBody g synPhase).state } ∧ (s.dead = true → d = true) := by
  have hd : ∃ r x n, s.tookData g = { s with rx := r, rcvNxt := x, notify := n } := by
    unfold tookData
    split <;> exact ⟨_, _, _, rfl⟩
  obtain ⟨r, x, n, hd⟩ := hd
  unfold tookBody tookFin
  rw [hd]
  obtain ⟨_, _, he, hdead⟩ :=
    ({ s with rx := r, rcvNxt := x, notify := n } : TcpSocket).takeFin_eq g.finSeq synPhase
  split
  · rw [he]
    exact ⟨_, _, _, _, _, rfl, hdead⟩
  · exact ⟨_, _, _, _, _, rfl, id⟩

variable {s}

theorem Fit.tookBody (h : s.Fit) (g : TcpSeg) (synPhase : Bool) : (s.tookBody g synPhase).Fit :=
  (sameBufs_tookFin _ g synPhase).fit (h.tookData g)

theorem tookBody_state_cases (s : TcpSocket) (g : TcpSeg) (synPhase : Bool) :
    (s.tookBody g synPhase).state = s.state ∨
      (s.state = .established ∧ synPhase = false ∧ (s.tookBody g synPhase).state = .closeWait) := by
  have hd : (s.tookData g).state = s.state := by
    unfold tookData
    split <;> rfl
  obtain ⟨_, _, he, -⟩ := (s.tookData g).takeFin_eq g.finSeq synPhase
  unfold tookBody tookFin
  split
  · rw [he, hd]
    simp only
    split
    · rename_i h
      exact Or.inr ⟨h.1, h.2, rfl⟩
    · exact Or.inl rfl
  · exact Or.inl hd

/-! ## One segment -/

variable (s)

/-- A listening socket after a SYN. -/
def opened (now : Nat) : TcpSocket :=
  { s with
    iss := genIss s.localPort now
    sndNxt := genIss s.localPort now + 1
    dataBase := genIss s.localPort now + 1
    peerIp := g.peerIp
    peerPort := g.peerPort
    peerMac := g.peerMac
    rcvNxt := g.seq + 1
    state := .synRcvd
    synAcked := false
    out := []
    sent := 0
    inflight := 0
    rx := []
    finReq := false
    finSent := false
    finAcked := false
    rxFin := false
    retries := 0
    rtoDeadline := now + rtoTicks }

/-- A connecting socket after a SYN, before payload and FIN. -/
def answered : TcpSocket :=
  if (s.rxSynack g).1.synAcked then (s.rxSynack g).1.establish else (s.rxSynack g).1

/-- A socket in the handshake after its peer's SYN has come again. -/
def reopened (now : Nat) : TcpSocket :=
  { s with rcvNxt := g.seq + 1, rtoDeadline := now + rtoTicks, retries := 0 }

/-- The outcomes of a segment, past reset and acknowledgement. -/
inductive ByState (s : TcpSocket) (g : TcpSeg) (now : Nat) : TcpSocket → List TcpOut → Prop
  | stray (hst : s.state = .listen) (hsyn : g.syn = false) : ByState s g now s.close []
  | opened (hst : s.state = .listen) (hsyn : g.syn = true) (hnow : now + rtoTicks < 2 ^ 64) :
      ByState s g now (s.opened g now) [(s.opened g now).sendSynAck g.peerMac g.peerIp]
  | silent (hst : s.state = .synSent) (hsyn : g.syn = false) : ByState s g now s []
  | answered (hst : s.state = .synSent) (hsyn : g.syn = true) :
      ByState s g now ((s.answered g).tookBody g true)
        ((s.rxSynack g).2 ++ (s.answered g).bodyAcks g true)
  | reopened (hst : s.state = .synRcvd) (hsyn : g.syn = true) (hnow : now + rtoTicks < 2 ^ 64) :
      ByState s g now (s.reopened g now) [(s.reopened g now).sendSynAck g.peerMac g.peerIp]
  | pending (hst : s.state = .synRcvd) (hsyn : g.syn = false) (hack : s.synAcked = false) :
      ByState s g now s []
  | completed (hst : s.state = .synRcvd) (hsyn : g.syn = false) (hack : s.synAcked = true) :
      ByState s g now (s.establish.tookBody g true) (s.establish.bodyAcks g true)
  | flowing (hst : s.state = .established ∨ s.state = .closeWait) :
      ByState s g now (s.tookBody g false)
        ((if g.syn then [s.sendAck g.peerMac g.peerIp] else []) ++ s.bodyAcks g false)

theorem ByState.of_listen {s s' : TcpSocket} {g : TcpSeg} {now : Nat} {os : List TcpOut}
    (h : ByState s g now s' os) (hst : s.state = .listen) :
    (g.syn = false ∧ s' = s.close ∧ os = []) ∨ (g.syn = true ∧ s' = s.opened g now ∧
      os = [(s.opened g now).sendSynAck g.peerMac g.peerIp]) := by
  cases h with
  | stray _ hsyn => exact Or.inl ⟨hsyn, rfl, rfl⟩
  | opened _ hsyn => exact Or.inr ⟨hsyn, rfl, rfl⟩
  | silent h | answered h | reopened h | pending h | completed h => cases hst.symm.trans h
  | flowing h => rcases h with h | h <;> cases hst.symm.trans h

/-- A segment that would arm a timer, when there is no time left for it. -/
def TimesOut (now : Nat) : Prop :=
  (s.state = .listen ∨ s.state = .synRcvd) ∧ g.syn = true ∧ 2 ^ 64 ≤ now + rtoTicks

/-- What the peer's SYN changes at a connecting socket. -/
theorem answered_eq : ∃ x a t n st, s.answered g = { s with
    rcvNxt := x, synAcked := a, rtoDeadline := t, notify := n, state := st } ∧
    (st = s.state ∨ st = .established) := by
  have hsyn : ∃ x a t, (s.rxSynack g).1 =
      { s with rcvNxt := x, synAcked := a, rtoDeadline := t } := by
    unfold rxSynack
    split <;> exact ⟨_, _, _, rfl⟩
  obtain ⟨x, a, t, hsyn⟩ := hsyn
  rw [answered, hsyn]
  split
  · exact ⟨_, _, _, _, _, rfl, Or.inr rfl⟩
  · exact ⟨_, _, _, _, _, rfl, Or.inl rfl⟩

theorem sameBufs_answered : SameBufs s (s.answered g) := by
  obtain ⟨_, _, _, _, _, he, -⟩ := s.answered_eq g
  rw [he]
  exact ⟨rfl, rfl, rfl, rfl⟩

variable {s g}

theorem rxByState_cases (h : s.rx.length ≤ rxBuf) :
    (∃ s' os, s.rxByState g now = .ok (s', os) ∧ ByState s g now s' os) ∨ s.TimesOut g now := by
  have htime : (∃ d, addBits 64 now rtoTicks = .ok d ∧ d = now + rtoTicks ∧
      now + rtoTicks < 2 ^ 64) ∨ 2 ^ 64 ≤ now + rtoTicks := by
    rcases Nat.lt_or_ge (now + rtoTicks) (2 ^ 64) with hlt | hge
    · exact Or.inl ⟨_, addBits_eq_ok.mpr ⟨hlt, rfl⟩, rfl, hlt⟩
    · exact Or.inr hge
  cases hst : s.state with
  | listen =>
    cases hsyn : g.syn with
    | false =>
      refine Or.inl ⟨_, _, ?_, .stray hst hsyn⟩
      simp [rxByState, hst, hsyn, pure, Except.pure]
    | true =>
      rcases htime with ⟨d, hd, rfl, hlt⟩ | hge
      · refine Or.inl ⟨_, _, ?_, .opened hst hsyn hlt⟩
        simp only [rxByState, hst, hsyn, if_true, rxSyn, hd]
        rfl
      · exact Or.inr ⟨Or.inl hst, hsyn, hge⟩
  | synSent =>
    cases hsyn : g.syn with
    | false =>
      refine Or.inl ⟨_, _, ?_, .silent hst hsyn⟩
      simp [rxByState, hst, hsyn, pure, Except.pure]
    | true =>
      refine Or.inl ⟨_, _, ?_, .answered hst hsyn⟩
      have hrx : (s.answered g).rx.length ≤ rxBuf := by
        rw [(sameBufs_answered s g).rx]
        exact h
      have hbody := rxBody_ok (g := g) hrx true
      unfold answered at hbody ⊢
      simp only [rxByState, hst, hsyn, if_true, hbody]
      rfl
  | synRcvd =>
    cases hsyn : g.syn with
    | true =>
      rcases htime with ⟨d, hd, rfl, hlt⟩ | hge
      · refine Or.inl ⟨_, _, ?_, .reopened hst hsyn hlt⟩
        simp only [rxByState, reopened, hst, hsyn, if_true, hd]
        rfl
      · exact Or.inr ⟨Or.inr hst, hsyn, hge⟩
    | false =>
      cases hack : s.synAcked with
      | false =>
        refine Or.inl ⟨_, _, ?_, .pending hst hsyn hack⟩
        simp [rxByState, hst, hsyn, hack, pure, Except.pure]
      | true =>
        refine Or.inl ⟨_, _, ?_, .completed hst hsyn hack⟩
        have hbody := rxBody_ok (s := s.establish) (g := g) h true
        simp [rxByState, hst, hsyn, hack, hbody]
  | established =>
    refine Or.inl ⟨_, _, ?_, .flowing (Or.inl hst)⟩
    simp only [rxByState, hst, rxBody_ok (g := g) h false]
    rfl
  | closeWait =>
    refine Or.inl ⟨_, _, ?_, .flowing (Or.inr hst)⟩
    simp only [rxByState, hst, rxBody_ok (g := g) h false]
    rfl

theorem rxByState_timesOut (ht : s.TimesOut g now) : ∃ e, s.rxByState g now = .error e := by
  obtain ⟨hst, hsyn, hge⟩ := ht
  have htime : addBits 64 now rtoTicks = .error .overflow := by
    rw [addBits, if_neg (by omega)]
  rcases hst with hst | hst
  · refine ⟨.overflow, ?_⟩
    simp only [rxByState, hst, hsyn, if_true, rxSyn, htime]
    rfl
  · refine ⟨.overflow, ?_⟩
    simp only [rxByState, hst, hsyn, if_true, htime]
    rfl

/-- The socket after the acknowledgement field of a segment. -/
def ackedBy (s : TcpSocket) (g : TcpSeg) : TcpSocket :=
  if g.ackFlag then { s with peerWnd := g.window.toNat }.acked g.ack else s

theorem Fit.peerWnd (h : s.Fit) (n : Nat) : ({ s with peerWnd := n } : TcpSocket).Fit :=
  { h with }

theorem rxAckField_ok (h : s.Fit) (g : TcpSeg) : s.rxAckField g = .ok (s.ackedBy g) := by
  unfold rxAckField ackedBy
  split
  · exact rxAck_ok (h.peerWnd _) _
  · rfl

theorem Fit.ackedBy (h : s.Fit) (g : TcpSeg) : (s.ackedBy g).Fit := by
  unfold TcpSocket.ackedBy
  split
  · exact (h.peerWnd _).acked _
  · exact h

/-- A change that leaves the connection and the receiving half alone. -/
structure SameLink (s s' : TcpSocket) : Prop where
  state : s'.state = s.state
  localPort : s'.localPort = s.localPort
  peer : (s'.peerIp, s'.peerPort, s'.peerMac) = (s.peerIp, s.peerPort, s.peerMac)
  iss : s'.iss = s.iss
  rcvNxt : s'.rcvNxt = s.rcvNxt
  rx : s'.rx = s.rx
  fin : (s'.finReq, s'.finSent, s'.finSeq, s'.rxFin) = (s.finReq, s.finSent, s.finSeq, s.rxFin)

theorem SameLink.refl (s : TcpSocket) : SameLink s s :=
  ⟨rfl, rfl, rfl, rfl, rfl, rfl, rfl⟩

variable (s)

theorem sameLink_acked : SameLink s (s.acked ack) := by
  obtain ⟨_, _, _, _, _, he, -⟩ := s.acked_eq ack
  rw [he]
  unfold consumed
  split <;> exact ⟨rfl, rfl, rfl, rfl, rfl, rfl, rfl⟩

/-- What an acknowledgement leaves alone. -/
theorem sameLink_ackedBy (g : TcpSeg) : SameLink s (s.ackedBy g) := by
  unfold TcpSocket.ackedBy
  split
  · have h := sameLink_acked { s with peerWnd := g.window.toNat } g.ack
    exact { h with }
  · exact .refl s

/-- The outcomes of a segment. -/
inductive Segment (s : TcpSocket) (g : TcpSeg) (now : Nat) : TcpSocket → List TcpOut → Prop
  | ignored (hd : s.dead = true) : Segment s g now s []
  | reset (hd : s.dead = false) (hr : g.rst = true) : Segment s g now s.close []
  | processed {s' : TcpSocket} {os : List TcpOut} (hd : s.dead = false) (hr : g.rst = false)
      (h : ByState (s.ackedBy g) g now s' os) : Segment s g now s' os

variable {s}

/-- Past reset and dead socket, the acknowledgement comes first. -/
theorem rxSegment_eq (h : s.Fit) (hd : s.dead = false) (hr : g.rst = false) :
    s.rxSegment g now = (s.ackedBy g).rxByState g now := by
  unfold rxSegment
  rw [rxAckField_ok h, hd, hr]
  rfl

theorem rxSegment_timesOut (h : s.Fit) (hd : s.dead = false) (hr : g.rst = false)
    (ht : s.TimesOut g now) : ∃ e, s.rxSegment g now = .error e := by
  rw [rxSegment_eq h hd hr]
  refine rxByState_timesOut ⟨?_, ht.2⟩
  rw [(sameLink_ackedBy s g).state]
  exact ht.1

/-- A segment has an outcome unless its timer cannot be armed. -/
theorem rxSegment_cases (h : s.Fit) :
    (∃ s' os, s.rxSegment g now = .ok (s', os) ∧ Segment s g now s' os) ∨
      (s.dead = false ∧ g.rst = false ∧ s.TimesOut g now ∧ ∃ e, s.rxSegment g now = .error e) := by
  cases hd : s.dead with
  | true =>
    refine Or.inl ⟨_, _, ?_, .ignored hd⟩
    simp [rxSegment, hd, pure, Except.pure]
  | false =>
    cases hr : g.rst with
    | true =>
      refine Or.inl ⟨_, _, ?_, .reset hd hr⟩
      simp [rxSegment, hd, hr, pure, Except.pure]
    | false =>
      rcases rxByState_cases (g := g) (s := s.ackedBy g) (h.ackedBy g).rx with
        ⟨s', os, hs', hby⟩ | ⟨hst, hlate⟩
      · exact Or.inl ⟨s', os, (rxSegment_eq h hd hr).trans hs', .processed hd hr hby⟩
      · rw [(sameLink_ackedBy s g).state] at hst
        have ht : s.TimesOut g now := ⟨hst, hlate⟩
        exact Or.inr ⟨rfl, rfl, ht, rxSegment_timesOut h hd hr ht⟩

theorem rxSegment_segment (h : s.Fit) (hr : s.rxSegment g now = .ok (s', os)) :
    Segment s g now s' os := by
  rcases rxSegment_cases (g := g) h with ⟨s₁, os₁, h₁, hseg⟩ | ⟨-, -, -, e, he⟩
  · rw [hr] at h₁
    cases h₁
    exact hseg
  · rw [hr] at he
    cases he

theorem Fit.byState (h : s.Fit) (hb : ByState s g now s' os) : s'.Fit := by
  cases hb with
  | opened => exact ⟨Nat.le_refl 0, Nat.le_refl 0, Nat.zero_le _, Nat.zero_le _⟩
  | silent | pending => exact h
  | answered => exact ((sameBufs_answered s g).fit h).tookBody g true
  | stray | reopened => exact { h with }
  | completed =>
    have hest : s.establish.Fit := { h with }
    exact hest.tookBody g true
  | flowing => exact h.tookBody g false

theorem Fit.segment (h : s.Fit) (hs : Segment s g now s' os) : s'.Fit := by
  cases hs with
  | ignored => exact h
  | reset => exact { h with }
  | processed _ _ hb => exact (h.ackedBy g).byState hb

/-! ## One poll -/

variable (s)

/-- The socket after a retransmission. -/
def retried (now : Nat) : TcpSocket :=
  { s with retries := s.retries + 1, rtoDeadline := now + rtoTicks }

/-- The socket after fresh data. -/
def sentChunk (n now : Nat) : TcpSocket :=
  { s with sent := s.sent + n, inflight := n, retries := 0, rtoDeadline := now + rtoTicks }

/-- The socket after its FIN. -/
def sentFin (now : Nat) : TcpSocket :=
  { s with finSent := true, finSeq := s.sndNxt, retries := 0, rtoDeadline := now + rtoTicks }

/-- The bytes `lo .. lo + n` of the queue. -/
def outAt (lo n : Nat) : Bytes :=
  (s.out.drop lo).take n

/-- The outcomes of a poll. -/
inductive Polls (s : TcpSocket) (now : Nat) : TcpSocket → List TcpOut → Prop
  | quiet : Polls s now s []
  | gaveUp : Polls s now { s with retries := s.retries + 1 }.close []
  | handshake (hack : s.synAcked = false) (hst : s.state = .synSent ∨ s.state = .synRcvd)
      (hmac : s.peerMac ≠ macZero) :
      Polls s now (s.retried now)
        [if s.state = .synSent then s.sendSyn s.peerMac s.peerIp else s.sendSynAck s.peerMac s.peerIp]
  | resent (hin : 0 < s.inflight) (hmac : s.peerMac ≠ macZero) :
      Polls s now (s.retried now) [s.sendDataSeg s.peerMac s.peerIp
        (s.dataBase + UInt32.ofNat (s.sent - s.inflight)) (s.outAt (s.sent - s.inflight) s.inflight)]
  | fresh (n : Nat) (hin : s.inflight = 0) (hpos : 0 < n) (hmac : s.peerMac ≠ macZero)
      (hn : n ≤ s.out.length - s.sent) :
      Polls s now (s.sentChunk n now) [s.sendDataSeg s.peerMac s.peerIp
        (s.dataBase + UInt32.ofNat s.sent) (s.outAt s.sent n)]
  | fin (hin : s.inflight = 0) (hall : s.out.length ≤ s.sent) (hreq : s.finReq = true)
      (hnew : s.finSent = false) (hmac : s.peerMac ≠ macZero) :
      Polls s now (s.sentFin now) [s.sendFin s.peerMac s.peerIp s.sndNxt]
  | finAgain (hsent : s.finSent = true) (hmac : s.peerMac ≠ macZero) :
      Polls s now (s.retried now) [s.sendFin s.peerMac s.peerIp s.finSeq]

variable {s}

theorem retry_ok {send : TcpSocket → Except Fault (List TcpOut)}
    (h : s.retry now send = .ok (s', os)) :
    (s' = { s with retries := s.retries + 1 }.close ∧ os = []) ∨
      (s' = s.retried now ∧ send { s with retries := s.retries + 1 } = .ok os) := by
  unfold retry at h
  obtain ⟨n, hn, h⟩ := bind_eq_ok.mp h
  obtain ⟨-, rfl⟩ := addBits_eq_ok.mp hn
  simp only at h
  split at h
  · cases h
    exact Or.inl ⟨rfl, rfl⟩
  · obtain ⟨os₁, hos, h⟩ := bind_eq_ok.mp h
    obtain ⟨d, hd, h⟩ := bind_eq_ok.mp h
    obtain ⟨-, rfl⟩ := addBits_eq_ok.mp hd
    cases h
    exact Or.inr ⟨rfl, hos⟩

theorem resend_ok (h : s.resend = .ok os) : os = [s.sendDataSeg s.peerMac s.peerIp
    (s.dataBase + UInt32.ofNat (s.sent - s.inflight)) (s.outAt (s.sent - s.inflight) s.inflight)] := by
  unfold resend at h
  obtain ⟨start, hstart, h⟩ := bind_eq_ok.mp h
  obtain ⟨-, rfl⟩ := subUsize_eq_ok.mp hstart
  obtain ⟨data, hdata, h⟩ := bind_eq_ok.mp h
  obtain ⟨-, rfl⟩ := slice_eq_ok.mp hdata
  cases h
  rw [outAt, drop_take, Nat.add_sub_cancel_left]

theorem pollData_ok (hmac : s.peerMac ≠ macZero) (h : s.pollData now = .ok (s', os)) :
    Polls s now s' os := by
  unfold pollData at h
  split at h
  · rename_i hin
    split at h
    · rcases retry_ok h with ⟨rfl, rfl⟩ | ⟨rfl, hos⟩
      · exact .gaveUp
      · rw [resend_ok hos]
        exact .resent hin hmac
    · cases h
      exact .quiet
  rename_i hin
  have hin : s.inflight = 0 := by omega
  split at h
  · rename_i hlt
    simp only at h
    split at h
    · cases h
      exact .quiet
    · rename_i hpos
      obtain ⟨data, hdata, h⟩ := bind_eq_ok.mp h
      obtain ⟨-, rfl⟩ := slice_eq_ok.mp hdata
      obtain ⟨d, hd, h⟩ := bind_eq_ok.mp h
      obtain ⟨-, rfl⟩ := addBits_eq_ok.mp hd
      cases h
      rw [drop_take, Nat.add_sub_cancel_left]
      exact .fresh _ hin (by omega) hmac (by omega)
  rename_i hall
  split at h
  · rename_i hfin
    obtain ⟨d, hd, h⟩ := bind_eq_ok.mp h
    obtain ⟨-, rfl⟩ := addBits_eq_ok.mp hd
    cases h
    simp only [Bool.and_eq_true, Bool.not_eq_true'] at hfin
    exact .fin hin (by omega) hfin.1 hfin.2 hmac
  split at h
  · rename_i hfin
    simp only [Bool.and_eq_true] at hfin
    rcases retry_ok h with ⟨rfl, rfl⟩ | ⟨rfl, hos⟩
    · exact .gaveUp
    · cases hos
      exact .finAgain hfin.1.1 hmac
  · cases h
    exact .quiet

theorem poll_ok (h : s.poll now = .ok (s', os)) : Polls s now s' os := by
  unfold poll at h
  split at h
  · cases h
    exact .quiet
  split at h
  · cases h
    exact .quiet
  rename_i hmac
  split at h
  · rename_i hsyn
    simp only [Bool.and_eq_true, Bool.not_eq_true', Bool.or_eq_true, beq_iff_eq] at hsyn
    split at h
    · rcases retry_ok h with ⟨rfl, rfl⟩ | ⟨rfl, hos⟩
      · exact .gaveUp
      · cases hos
        exact .handshake hsyn.1 hsyn.2 hmac
    · cases h
      exact .quiet
  · exact pollData_ok hmac h

theorem Fit.polls (h : s.Fit) (hp : Polls s now s' os) : s'.Fit := by
  cases hp with
  | quiet => exact h
  | gaveUp | handshake | resent | fin | finAgain => exact { h with }
  | fresh n _ _ _ hn =>
    have hsent := h.sent
    exact ⟨Nat.le_add_left _ _, by simp only [sentChunk]; omega, h.out, h.rx⟩

/-! ## Runs -/

end TcpSocket

inductive SockOp where
  | segment (g : TcpSeg) (now : Nat)
  | write (data : Bytes)
  | read (n : Nat)
  | close
  | takeNotify
  | poll (now : Nat)

/-- The operation comes from the network. -/
def SockOp.inbound : SockOp → Bool
  | .segment _ _ => true
  | _ => false

/-- The bytes an operation reads. -/
def SockOp.reads (s : TcpSocket) : SockOp → Bytes
  | .read n => (s.appRead n).2
  | _ => []

namespace TcpSocket

variable {s s' : TcpSocket}

/-- One operation, with the segments it sends. -/
def run (s : TcpSocket) : SockOp → Except Fault (TcpSocket × List TcpOut)
  | .segment g now => s.rxSegment g now
  | .write data => .ok ((s.appWrite data).1, [])
  | .read n => .ok ((s.appRead n).1, [])
  | .close => .ok (s.appClose, [])
  | .takeNotify => .ok (s.takeNotify, [])
  | .poll now => s.poll now

def Does (s : TcpSocket) (op : SockOp) (s' : TcpSocket) : Prop :=
  ∃ os, s.run op = .ok (s', os)

/-- A socket as `tcp_listen` and `tcp_connect` make it. -/
inductive Fresh : TcpSocket → Prop
  | listen (port : UInt16) : Fresh (TcpSocket.listen port)
  | connect (ip : Ip4) (dport sport : UInt16) (now : Nat) (mac : Mac) (s : TcpSocket)
      (h : TcpSocket.connect ip dport sport now = .ok s) : Fresh { s with peerMac := mac }

/-- A socket after some operations. -/
def Reachable (s : TcpSocket) : Prop :=
  ∃ s₀ ops, Fresh s₀ ∧ LTS.Run Does s₀ ops s

theorem Fresh.fit (h : Fresh s) : s.Fit := by
  cases h with
  | listen port => exact ⟨Nat.le_refl 0, Nat.le_refl 0, Nat.zero_le _, Nat.zero_le _⟩
  | connect ip dport sport now mac s h =>
    obtain ⟨d, -, h⟩ := bind_eq_ok.mp h
    cases h
    exact ⟨Nat.le_refl 0, Nat.le_refl 0, Nat.zero_le _, Nat.zero_le _⟩

/-- `app_write` takes the whole of the data, or nothing. -/
theorem appWrite_cases (s : TcpSocket) (data : Bytes) : s.appWrite data = (s, false) ∨
    ((s.state = .established ∨ s.state = .closeWait) ∧ s.out.length + data.length ≤ txBuf ∧
      s.appWrite data = ({ s with
        out := s.out ++ data
        sndNxt := s.dataBase + UInt32.ofNat (s.out.length + data.length) }, true)) := by
  unfold appWrite
  split
  · exact Or.inl rfl
  rename_i hst
  split
  · exact Or.inl rfl
  · rename_i hroom
    exact Or.inr ⟨by tauto, Nat.not_lt.mp hroom, rfl⟩

theorem takeNotify_eq (s : TcpSocket) : ∃ n, s.takeNotify = { s with notify := n } := by
  unfold takeNotify
  split
  · exact ⟨_, rfl⟩
  split
  · exact ⟨_, rfl⟩
  split <;> exact ⟨_, rfl⟩

theorem Fit.appWrite (h : s.Fit) (data : Bytes) : (s.appWrite data).1.Fit := by
  rcases s.appWrite_cases data with he | ⟨-, hroom, he⟩
  · rw [he]
    exact h
  · have hsent := h.sent
    rw [he]
    refine ⟨h.inflight, ?_, ?_, h.rx⟩ <;> simp only [length_append] <;> omega

theorem Fit.takeNotify (h : s.Fit) : s.takeNotify.Fit := by
  obtain ⟨_, he⟩ := s.takeNotify_eq
  rw [he]
  exact { h with }

theorem Fit.appRead (h : s.Fit) (n : Nat) : (s.appRead n).1.Fit := by
  refine ⟨h.inflight, h.sent, h.out, ?_⟩
  have hrx := h.rx
  simp only [TcpSocket.appRead, length_drop]
  omega

/-- What the application and the timer leave alone. -/
structure Local (op : SockOp) (s s' : TcpSocket) : Prop where
  state : s'.state = s.state
  ends : (s'.localPort, s'.peerIp, s'.peerPort, s'.peerMac) =
    (s.localPort, s.peerIp, s.peerPort, s.peerMac)
  iss : s'.iss = s.iss
  rcvNxt : s'.rcvNxt = s.rcvNxt
  synAcked : s'.synAcked = s.synAcked
  rx : op.reads s ++ s'.rx = s.rx
  queue : (∃ data, op = .write data) ∨
    (s'.out, s'.dataBase, s'.sndNxt) = (s.out, s.dataBase, s.sndNxt)
  /-- One segment is outstanding at a time, and it is all that was sent. -/
  even : s.inflight = s.sent → s'.inflight = s'.sent
  dead : s.dead = true → s'.dead = true

theorem run_local {op : SockOp} {os : List TcpOut} (hin : op.inbound = false)
    (hr : s.run op = .ok (s', os)) : Local op s s' := by
  cases op with
  | segment g now => cases hin
  | write data =>
    cases hr
    rcases s.appWrite_cases data with he | ⟨-, -, he⟩ <;> rw [he] <;>
      exact ⟨rfl, rfl, rfl, rfl, rfl, rfl, Or.inl ⟨data, rfl⟩, id, id⟩
  | read n =>
    cases hr
    exact ⟨rfl, rfl, rfl, rfl, rfl, take_append_drop n _, Or.inr rfl, id, id⟩
  | close =>
    cases hr
    exact ⟨rfl, rfl, rfl, rfl, rfl, rfl, Or.inr rfl, id, id⟩
  | takeNotify =>
    cases hr
    obtain ⟨_, he⟩ := s.takeNotify_eq
    rw [he]
    exact ⟨rfl, rfl, rfl, rfl, rfl, rfl, Or.inr rfl, id, id⟩
  | poll now =>
    cases poll_ok hr with
    | gaveUp => exact ⟨rfl, rfl, rfl, rfl, rfl, rfl, Or.inr rfl, id, fun _ => rfl⟩
    | fresh n hin =>
      refine ⟨rfl, rfl, rfl, rfl, rfl, rfl, Or.inr rfl, fun he => ?_, id⟩
      rw [sentChunk, ← he, hin, Nat.zero_add]
    | quiet | handshake | resent | fin | finAgain =>
      exact ⟨rfl, rfl, rfl, rfl, rfl, rfl, Or.inr rfl, id, id⟩

theorem Fit.does (h : s.Fit) {op : SockOp} (hd : Does s op s') : s'.Fit := by
  obtain ⟨os, ho⟩ := hd
  cases op with
  | segment g now => exact h.segment (rxSegment_segment h ho)
  | write data =>
    cases ho
    exact h.appWrite data
  | read n =>
    cases ho
    exact h.appRead n
  | close =>
    cases ho
    exact { h with }
  | takeNotify =>
    cases ho
    exact h.takeNotify
  | poll now => exact h.polls (poll_ok ho)

theorem Reachable.fit (h : Reachable s) : s.Fit := by
  obtain ⟨s₀, ops, hfresh, hrun⟩ := h
  exact hrun.invariant (fun _ _ _ h hd => h.does hd) hfresh.fit

end TcpSocket

end Net

end Tanix
