/-
# `Tanix.Net.Stream` — one direction of a connection

What one application writes and the other reads is a stream of bytes.  Byte `k` of it has
sequence number `iss + 1 + k`, and the FIN the number after the last byte.

    Carries   a segment of the sender: its SYN, a piece of the stream, its FIN, or none of these
    Sends     the sender's queue is the rest of the stream from `data_base` on
    Follows   `rcv_nxt` is the number of the next byte, or the stream has ended

`Sends` is kept by all a socket does, whatever is acknowledged to it, and all it sends
carries the stream.  `Follows` is kept by every segment that carries the stream.
-/
import Tanix.Net.Receive
import Tanix.Net.Stack

namespace Tanix

open List

namespace Net

/-- A segment as its receiver sees it. -/
def TcpOut.seen (o : TcpOut) (ip : Ip4) (mac : Mac) : TcpSeg :=
  NetStack.segOf o.seq o.ack o.flags o.wnd o.payload ip o.srcPort mac

structure Stream where
  iss : UInt32
  /-- accepted by `app_write` -/
  written : Bytes
  /-- the application has asked to close -/
  closed : Bool

namespace Stream

/-- The sequence number of byte `k`. -/
def seqAt (σ : Stream) (k : Nat) : UInt32 :=
  σ.iss + 1 + UInt32.ofNat k

variable {σ : Stream}

theorem seqAt_add (σ : Stream) (k n : Nat) : σ.seqAt k + UInt32.ofNat n = σ.seqAt (k + n) := by
  rw [seqAt, seqAt, UInt32.ofNat_add, UInt32.add_assoc]

theorem seqAt_zero (σ : Stream) : σ.iss + 1 = σ.seqAt 0 :=
  (UInt32.add_zero _).symm

/-- Two bytes less than a whole turn apart have two numbers. -/
theorem seqAt_inj {i j : Nat} (hi : i < 2 ^ 32) (hj : j < 2 ^ 32) (h : σ.seqAt i = σ.seqAt j) : i = j := by
  have hi' := toNat_add_sub (σ.iss + 1) hi
  have hj' := toNat_add_sub (σ.iss + 1) hj
  rw [seqAt, seqAt] at h
  rw [← hi', ← hj', h]

/-- A segment of this stream's sender. -/
structure Carries (σ : Stream) (o : TcpOut) : Prop where
  small : o.payload.length ≤ rxBuf
  syn : o.flags &&& flagSyn ≠ 0 → o.seq = σ.iss ∧ o.payload = [] ∧ o.flags &&& flagFin = 0
  fin : o.flags &&& flagFin ≠ 0 →
    σ.closed = true ∧ o.seq = σ.seqAt σ.written.length ∧ o.payload = []
  data : o.payload ≠ [] → ∃ before after, σ.written = before ++ o.payload ++ after ∧
    o.seq = σ.seqAt before.length

/-- The stream after more has been written. -/
def push (σ : Stream) (data : Bytes) : Stream :=
  { σ with written := σ.written ++ data }

theorem Carries.push {o : TcpOut} (h : σ.Carries o) (hopen : σ.closed = false) (data : Bytes) :
    (σ.push data).Carries o where
  small := h.small
  syn := h.syn
  fin hf := by
    have hc := (h.fin hf).1
    rw [hopen] at hc
    cases hc
  data hp := by
    obtain ⟨before, after, hw, hs⟩ := h.data hp
    refine ⟨before, after ++ data, ?_, hs⟩
    change σ.written ++ data = _
    rw [hw, append_assoc]

theorem Carries.close {o : TcpOut} (h : σ.Carries o) : Carries { σ with closed := true } o :=
  ⟨h.small, h.syn, fun hf => ⟨rfl, (h.fin hf).2⟩, h.data⟩

/-- A segment with no payload and no FIN, that is no SYN either. -/
theorem Carries.bare {o : TcpOut} (hsyn : o.flags &&& flagSyn = 0) (hfin : o.flags &&& flagFin = 0)
    (hp : o.payload = []) : σ.Carries o where
  small := by
    rw [hp]
    exact Nat.zero_le _
  syn h := absurd hsyn h
  fin h := absurd hfin h
  data h := absurd hp h

/-! ## The sender -/

/-- The queue is the stream from `data_base` on, and ends at `snd_nxt`. -/
structure Queues (σ : Stream) (s : TcpSocket) : Prop where
  iss : s.iss = σ.iss
  queue : ∃ before, σ.written = before ++ s.out ∧ s.dataBase = σ.seqAt before.length
  nxt : s.sndNxt = σ.seqAt σ.written.length

/-- The same, and the FIN is the end of the stream. -/
structure Sends (σ : Stream) (s : TcpSocket) : Prop where
  iss : s.iss = σ.iss
  queue : ∃ before, σ.written = before ++ s.out ∧ s.dataBase = σ.seqAt before.length
  nxt : s.sndNxt = σ.seqAt σ.written.length
  req : s.finReq = true → σ.closed = true
  fin : s.finSent = true → σ.closed = true ∧ s.finSeq = σ.seqAt σ.written.length

/-- A change that leaves the sending half alone. -/
structure SameSend (s s' : TcpSocket) : Prop where
  iss : s'.iss = s.iss
  out : s'.out = s.out
  dataBase : s'.dataBase = s.dataBase
  sndNxt : s'.sndNxt = s.sndNxt
  fin : (s'.finReq, s'.finSent, s'.finSeq) = (s.finReq, s.finSent, s.finSeq)

/-- The same, and the counts of the queue. -/
structure SameQueue (s s' : TcpSocket) : Prop extends SameSend s s' where
  sent : s'.sent = s.sent
  inflight : s'.inflight = s.inflight

variable {s s' s'' : TcpSocket} {g : TcpSeg} {now : Nat} {os : List TcpOut}

/-- A socket that has just sent its SYN. -/
theorem Sends.fresh (hbase : s.dataBase = s.iss + 1) (hnxt : s.sndNxt = s.iss + 1) (hout : s.out = [])
    (hreq : s.finReq = false) (hfin : s.finSent = false) (closed : Bool) :
    Sends ⟨s.iss, [], closed⟩ s where
  iss := rfl
  queue := ⟨[], hout.symm, hbase.trans (seqAt_zero ⟨s.iss, [], closed⟩)⟩
  nxt := hnxt.trans (seqAt_zero ⟨s.iss, [], closed⟩)
  req h := by
    rw [hreq] at h
    cases h
  fin h := by
    rw [hfin] at h
    cases h

theorem SameQueue.refl (s : TcpSocket) : SameQueue s s :=
  ⟨⟨rfl, rfl, rfl, rfl, rfl⟩, rfl, rfl⟩

theorem SameQueue.trans (h : SameQueue s s') (h' : SameQueue s' s'') : SameQueue s s'' :=
  ⟨⟨h'.iss.trans h.iss, h'.out.trans h.out, h'.dataBase.trans h.dataBase,
    h'.sndNxt.trans h.sndNxt, h'.fin.trans h.fin⟩, h'.sent.trans h.sent, h'.inflight.trans h.inflight⟩

theorem Sends.queues (h : σ.Sends s) : σ.Queues s :=
  ⟨h.iss, h.queue, h.nxt⟩

theorem Queues.keep (h : σ.Queues s) (hiss : s'.iss = s.iss)
    (hq : (s'.out, s'.dataBase, s'.sndNxt) = (s.out, s.dataBase, s.sndNxt)) : σ.Queues s' := by
  simp only [Prod.mk.injEq] at hq
  refine ⟨hiss.trans h.iss, ?_, hq.2.2.trans h.nxt⟩
  rw [hq.1, hq.2.1]
  exact h.queue

theorem Queues.same (h : σ.Queues s) (hs : SameSend s s') : σ.Queues s' :=
  h.keep hs.iss (by rw [hs.out, hs.dataBase, hs.sndNxt])

/-- A change of the queue that leaves the FIN alone. -/
theorem Sends.requeue (h : σ.Sends s) (hq : σ.Queues s')
    (hfin : (s'.finReq, s'.finSent, s'.finSeq) = (s.finReq, s.finSent, s.finSeq)) : σ.Sends s' := by
  rw [Prod.mk.injEq, Prod.mk.injEq] at hfin
  obtain ⟨hreq, hsent, hseq⟩ := hfin
  refine ⟨hq.iss, hq.queue, hq.nxt, ?_, ?_⟩
  · rw [hreq]
    exact h.req
  · rw [hsent, hseq]
    exact h.fin

theorem Sends.same (h : σ.Sends s) (hs : SameSend s s') : σ.Sends s' :=
  h.requeue (h.queues.same hs) hs.fin

theorem Queues.consumed (h : σ.Queues s) (hfit : s.Fit) (ack : UInt32) :
    σ.Queues (s.consumed ack) := by
  unfold TcpSocket.consumed
  split
  · exact h
  · obtain ⟨before, hw, hbase⟩ := h.queue
    have hle : s.advance ack ≤ s.out.length := Nat.le_trans (s.advance_le ack) hfit.sent
    -- what is taken off the queue joins what was before it
    have hlen : (before ++ s.out.take (s.advance ack)).length = before.length + s.advance ack := by
      rw [length_append, length_take, Nat.min_eq_left hle]
    refine ⟨h.iss, ⟨before ++ s.out.take (s.advance ack), ?_, ?_⟩, ?_⟩
    · change _ = _ ++ s.out.drop _
      rw [append_assoc, take_append_drop]
      exact hw
    · change s.dataBase + _ = _
      rw [hlen, hbase, seqAt_add]
    · change s.dataBase + _ + _ = _
      rw [hbase, seqAt_add, seqAt_add, hw, length_append]
      congr 1
      omega

theorem Queues.acked (h : σ.Queues s) (hfit : s.Fit) (ack : UInt32) : σ.Queues (s.acked ack) := by
  obtain ⟨_, _, _, _, _, he, -⟩ := s.acked_eq ack
  rw [he]
  exact (h.consumed hfit ack).same ⟨rfl, rfl, rfl, rfl, rfl⟩

theorem Queues.ackedBy (h : σ.Queues s) (hfit : s.Fit) (g : TcpSeg) : σ.Queues (s.ackedBy g) := by
  unfold TcpSocket.ackedBy
  split
  · have hwnd : SameSend s { s with peerWnd := g.window.toNat } := ⟨rfl, rfl, rfl, rfl, rfl⟩
    exact (h.same hwnd).acked (hfit.peerWnd _) _
  · exact h

theorem Sends.ackedBy (h : σ.Sends s) (hfit : s.Fit) (g : TcpSeg) : σ.Sends (s.ackedBy g) := by
  refine h.requeue (h.queues.ackedBy hfit g) ?_
  have hfin := (TcpSocket.sameLink_ackedBy s g).fin
  simp only [Prod.mk.injEq] at hfin ⊢
  exact ⟨hfin.1, hfin.2.1, hfin.2.2.1⟩

theorem sameQueue_tookBody (s : TcpSocket) (g : TcpSeg) (ph : Bool) :
    SameQueue s (s.tookBody g ph) := by
  obtain ⟨_, _, _, _, _, he, -⟩ := s.tookBody_eq g ph
  rw [he]
  exact ⟨⟨rfl, rfl, rfl, rfl, rfl⟩, rfl, rfl⟩

theorem sameQueue_answered (s : TcpSocket) (g : TcpSeg) : SameQueue s (s.answered g) := by
  obtain ⟨_, _, _, _, _, he, -⟩ := s.answered_eq g
  rw [he]
  exact ⟨⟨rfl, rfl, rfl, rfl, rfl⟩, rfl, rfl⟩

/-! ### What is sent -/

theorem flags_ack : flagAck &&& flagSyn = 0 ∧ flagAck &&& flagFin = 0 := by
  decide

theorem flags_data : (flagAck ||| flagPsh) &&& flagSyn = 0 ∧ (flagAck ||| flagPsh) &&& flagFin = 0 := by
  decide

theorem flags_fin : (flagFin ||| flagAck) &&& flagSyn = 0 := by
  decide

theorem flags_syn : flagSyn &&& flagFin = 0 ∧ (flagSyn ||| flagAck) &&& flagFin = 0 := by
  decide

theorem Carries.sendAck (s : TcpSocket) (mac : Mac) (ip : Ip4) : σ.Carries (s.sendAck mac ip) :=
  .bare flags_ack.1 flags_ack.2 rfl

theorem carries_bodyAcks (s : TcpSocket) (g : TcpSeg) (ph : Bool) :
    ∀ o ∈ s.bodyAcks g ph, σ.Carries o := by
  intro o ho
  rcases mem_append.mp ho with h | h
  · split at h
    · cases h
    · rw [mem_singleton.mp h]
      exact .sendAck _ _ _
  · split at h
    · rw [mem_singleton.mp h]
      exact .sendAck _ _ _
    · cases h

/-- The SYN, alone or with an acknowledgement. -/
theorem Carries.handshake {o : TcpOut} (hflags : o.flags = flagSyn ∨ o.flags = flagSyn ||| flagAck)
    (hseq : o.seq = σ.iss) (hp : o.payload = []) : σ.Carries o where
  small := by
    rw [hp]
    exact Nat.zero_le _
  syn _ := by
    refine ⟨hseq, hp, ?_⟩
    rcases hflags with h | h
    · rw [h]
      exact flags_syn.1
    · rw [h]
      exact flags_syn.2
  fin h := by
    rcases hflags with hf | hf
    · rw [hf] at h
      exact absurd flags_syn.1 h
    · rw [hf] at h
      exact absurd flags_syn.2 h
  data h := absurd hp h

theorem Queues.carries_data (h : σ.Queues s) (hfit : s.Fit) {lo n : Nat} (hlo : lo + n ≤ s.out.length) :
    σ.Carries (s.sendDataSeg s.peerMac s.peerIp (s.dataBase + UInt32.ofNat lo) (s.outAt lo n)) := by
  have hlen : (s.outAt lo n).length = n := by
    rw [TcpSocket.outAt, length_take, length_drop]
    omega
  have hmax : s.out.length ≤ rxBuf := hfit.out
  obtain ⟨before, hw, hbase⟩ := h.queue
  refine ⟨?_, fun hc => absurd flags_data.1 hc, fun hc => absurd flags_data.2 hc, fun _ => ?_⟩
  · change (s.outAt lo n).length ≤ rxBuf
    omega
  · refine ⟨before ++ s.out.take lo, (s.out.drop lo).drop n, ?_, ?_⟩
    · change _ = _ ++ s.outAt lo n ++ _
      rw [TcpSocket.outAt, append_assoc, take_append_drop, append_assoc,
        take_append_drop]
      exact hw
    · change s.dataBase + _ = _
      rw [hbase, seqAt_add, length_append, length_take, Nat.min_eq_left (by omega)]

theorem carries_fin {mac : Mac} {ip : Ip4} (hc : σ.closed = true) :
    σ.Carries (s.sendFin mac ip (σ.seqAt σ.written.length)) :=
  ⟨Nat.zero_le _, fun h => absurd flags_fin h, fun _ => ⟨hc, rfl, rfl⟩, fun h => absurd rfl h⟩

/-- One poll sends a piece of the stream, or none. -/
theorem Sends.polls (h : σ.Sends s) (hfit : s.Fit) (hp : TcpSocket.Polls s now s' os) :
    σ.Sends s' ∧ ∀ o ∈ os, σ.Carries o := by
  cases hp with
  | quiet => exact ⟨h, by simp⟩
  | gaveUp => exact ⟨h.same ⟨rfl, rfl, rfl, rfl, rfl⟩, by simp⟩
  | handshake =>
    refine ⟨h.same ⟨rfl, rfl, rfl, rfl, rfl⟩, fun o ho => ?_⟩
    rw [mem_singleton.mp ho]
    split
    · exact .handshake (Or.inl rfl) h.iss rfl
    · exact .handshake (Or.inr rfl) h.iss rfl
  | resent hin =>
    refine ⟨h.same ⟨rfl, rfl, rfl, rfl, rfl⟩, fun o ho => ?_⟩
    rw [mem_singleton.mp ho]
    have h₁ := hfit.inflight
    have h₂ := hfit.sent
    exact h.queues.carries_data hfit (by omega)
  | fresh n hin hpos hmac hn =>
    refine ⟨h.same ⟨rfl, rfl, rfl, rfl, rfl⟩, fun o ho => ?_⟩
    rw [mem_singleton.mp ho]
    have h₂ := hfit.sent
    exact h.queues.carries_data hfit (by omega)
  | fin hin hall hreq hnew hmac =>
    have hc := h.req hreq
    refine ⟨⟨h.iss, h.queue, h.nxt, h.req, fun _ => ⟨hc, h.nxt⟩⟩, fun o ho => ?_⟩
    rw [mem_singleton.mp ho, h.nxt]
    exact carries_fin hc
  | finAgain hsent hmac =>
    obtain ⟨hc, hseq⟩ := h.fin hsent
    refine ⟨h.same ⟨rfl, rfl, rfl, rfl, rfl⟩, fun o ho => ?_⟩
    rw [mem_singleton.mp ho, hseq]
    exact carries_fin hc

/-- A segment that arrives leaves the stream alone, once the socket is open. -/
theorem byState_same (hopen : s.state ≠ .listen) (hiss : s.iss = σ.iss)
    (hb : TcpSocket.ByState s g now s' os) : SameQueue s s' ∧ ∀ o ∈ os, σ.Carries o := by
  cases hb with
  | stray hst | opened hst => exact absurd hst hopen
  | silent | pending => exact ⟨.refl s, by simp⟩
  | answered =>
    refine ⟨(sameQueue_answered s g).trans (sameQueue_tookBody _ g true), fun o ho => ?_⟩
    rcases mem_append.mp ho with ho | ho
    · unfold TcpSocket.rxSynack at ho
      split at ho
      · cases ho
      · rw [mem_singleton.mp ho]
        exact .sendAck _ _ _
    · exact carries_bodyAcks _ g true o ho
  | reopened =>
    refine ⟨⟨⟨rfl, rfl, rfl, rfl, rfl⟩, rfl, rfl⟩, fun o ho => ?_⟩
    rw [mem_singleton.mp ho]
    exact .handshake (Or.inr rfl) hiss rfl
  | completed =>
    have hest : SameQueue s s.establish := ⟨⟨rfl, rfl, rfl, rfl, rfl⟩, rfl, rfl⟩
    exact ⟨hest.trans (sameQueue_tookBody _ g true), carries_bodyAcks _ g true⟩
  | flowing =>
    refine ⟨sameQueue_tookBody s g false, fun o ho => ?_⟩
    rcases mem_append.mp ho with ho | ho
    · split at ho
      · rw [mem_singleton.mp ho]
        exact .sendAck _ _ _
      · cases ho
    · exact carries_bodyAcks _ g false o ho

/-- The bytes that `app_write` accepts. -/
def accepted (s : TcpSocket) (data : Bytes) : Bytes :=
  if (s.appWrite data).2 then data else []

theorem Queues.write (h : σ.Queues s) (data : Bytes) :
    (σ.push (accepted s data)).Queues (s.appWrite data).1 := by
  unfold accepted
  rcases s.appWrite_cases data with he | ⟨-, -, he⟩
  · rw [he]
    change (σ.push []).Queues s
    rw [push, append_nil]
    exact h
  · rw [he]
    obtain ⟨before, hw, hbase⟩ := h.queue
    refine ⟨h.iss, ⟨before, ?_, hbase⟩, ?_⟩
    · change σ.written ++ data = before ++ (s.out ++ data)
      rw [hw, append_assoc]
    · change s.dataBase + _ = σ.seqAt (σ.written ++ data).length
      rw [hbase, seqAt_add, hw, length_append, length_append, Nat.add_assoc]

theorem appWrite_fin (s : TcpSocket) (data : Bytes) : (s.appWrite data).1.finReq = s.finReq ∧
    (s.appWrite data).1.finSent = s.finSent := by
  rcases s.appWrite_cases data with he | ⟨-, -, he⟩ <;> rw [he] <;> exact ⟨rfl, rfl⟩

theorem Sends.write (h : σ.Sends s) (hopen : σ.closed = false) (data : Bytes) :
    (σ.push (accepted s data)).Sends (s.appWrite data).1 := by
  have hq := h.queues.write data
  refine ⟨hq.iss, hq.queue, hq.nxt, fun hf => ?_, fun hf => ?_⟩
  · rw [(appWrite_fin s data).1] at hf
    exact h.req hf
  · rw [(appWrite_fin s data).2] at hf
    have hc := (h.fin hf).1
    rw [hopen] at hc
    cases hc

/-! ## The receiver -/

/-- The bytes that have come, `got`, are the front of the stream; `rcv_nxt` is the number of the
next one, or the FIN has been taken. -/
structure Follows (σ : Stream) (nxt : UInt32) (got : Bytes) : Prop where
  front : got <+: σ.written
  nxt : nxt = σ.seqAt got.length ∨ (σ.closed = true ∧ nxt = σ.seqAt (σ.written.length + 1))

theorem Follows.close {nxt : UInt32} {got : Bytes} (h : σ.Follows nxt got) :
    Follows { σ with closed := true } nxt got :=
  ⟨h.front, h.nxt.imp id fun hc => ⟨rfl, hc.2⟩⟩

variable {nxt : UInt32} {got : Bytes} {o : TcpOut}

/-- What the bits of a segment of the stream say to its receiver. -/
theorem Carries.seen_syn {ip : Ip4} {mac : Mac} (h : σ.Carries o) (hs : (o.seen ip mac).syn = true) :
    o.seq = σ.iss ∧ o.payload = [] ∧ (o.seen ip mac).fin = false := by
  obtain ⟨hseq, hp, hf⟩ := h.syn (by simpa [TcpOut.seen, NetStack.segOf] using hs)
  exact ⟨hseq, hp, by simpa [TcpOut.seen, NetStack.segOf] using hf⟩

/-- Payload in order is the next piece of the stream. -/
theorem Follows.data (h : σ.Follows nxt got) (hlen : σ.written.length < 2 ^ 31) (hc : σ.Carries o)
    (hp : o.payload ≠ []) (hseq : o.seq = nxt) :
    σ.Follows (nxt + UInt32.ofNat o.payload.length) (got ++ o.payload) := by
  obtain ⟨before, after, hw, hat⟩ := hc.data hp
  have hle : before.length ≤ σ.written.length := by
    rw [hw, length_append, length_append]
    omega
  rcases h.nxt with hn | ⟨-, hn⟩
  · have hle' := h.front.length_le
    have hsame : before.length = got.length :=
      seqAt_inj (by omega) (by omega) (hat.symm.trans (hseq.trans hn))
    have hgot : got = before := by
      have hpre : before <+: σ.written := by
        rw [hw, append_assoc]
        exact prefix_append _ _
      exact (prefix_of_prefix_length_le h.front hpre hsame.ge).eq_of_length hsame.symm
    subst hgot
    refine ⟨?_, Or.inl ?_⟩
    · rw [hw]
      exact prefix_append _ _
    · rw [hn, seqAt_add, length_append]
  · -- past the FIN no byte has this number
    have hbad := seqAt_inj (by omega) (by omega) (hat.symm.trans (hseq.trans hn))
    omega

/-- One segment's payload and FIN, when nothing is left in the buffer. -/
theorem Follows.tookBody (h : σ.Follows s.rcvNxt got) (ip : Ip4) (mac : Mac)
    (hlen : σ.written.length < 2 ^ 31) (hc : σ.Carries o) (hrx : s.rx = []) (ph : Bool) :
    σ.Follows (s.tookBody (o.seen ip mac) ph).rcvNxt
      (got ++ (s.tookBody (o.seen ip mac) ph).rx) := by
  have hroom : min o.payload.length (rxBuf - s.rx.length) = o.payload.length := by
    rw [hrx]
    exact Nat.min_eq_left hc.small
  have hdata : σ.Follows (s.tookData (o.seen ip mac)).rcvNxt
      (got ++ (s.tookData (o.seen ip mac)).rx) := by
    unfold TcpSocket.tookData
    split
    · rename_i hd
      have hrx' : (s.accept (o.seen ip mac)).rx = o.payload := by
        change s.rx ++ o.payload.take (min o.payload.length (rxBuf - s.rx.length)) = _
        rw [hroom, take_length, hrx, nil_append]
      rw [hrx']
      exact h.data hlen hc hd.1 hd.2
    · rw [hrx, append_nil]
      exact h
  have hsame : (s.tookBody (o.seen ip mac) ph).rx = (s.tookData (o.seen ip mac)).rx :=
    (TcpSocket.sameBufs_tookFin _ _ ph).rx
  rw [hsame]
  unfold TcpSocket.tookBody TcpSocket.tookFin
  split
  · rename_i hf
    obtain ⟨hclosed, hseq, hp⟩ := hc.fin (by simpa [TcpOut.seen, NetStack.segOf] using hf.1)
    refine ⟨hdata.front, Or.inr ⟨hclosed, ?_⟩⟩
    rw [TcpSocket.takeFin_rcvNxt]
    change o.seq + UInt32.ofNat o.payload.length + 1 = _
    rw [hseq, hp, seqAt_add]
    exact σ.seqAt_add _ 1
  · exact hdata

end Stream

end Net

end Tanix
