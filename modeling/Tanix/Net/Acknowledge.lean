/-
# `Tanix.Net.Acknowledge` — which bytes an acknowledgement takes off the queue

`rx_ack` takes `min (ack - data_base) sent` bytes, with the difference as an unsigned
number.

    ack in data_base ..= data_base + sent   the bytes before `ack`, and no others
    ack ahead of all that was sent          all that was sent
    ack behind data_base                    all that was sent, acknowledged or not

The last line is an old acknowledgement that arrives late: the difference wraps round to
more than `sent`.  So the queue is right for every acknowledgement exactly when an old one
finds nothing outstanding (`rxAck_exact_iff`).
-/
import Tanix.Net.Socket

namespace Tanix

namespace Net

namespace TcpSocket

variable {s : TcpSocket} {ack : UInt32}

variable (s ack)

/-- The number is in the range from `data_base` to `data_base + sent`, on the circle of sequence
numbers. -/
def InFlight : Prop :=
  (ack - s.dataBase).toNat ≤ s.sent

/-- The number is older than `data_base`. -/
def Stale : Prop :=
  seqLt ack s.dataBase = true

/-- Byte `i` of the queue has a sequence number in `[data_base, ack)`. -/
def Covered (i : Nat) : Prop :=
  i < (ack - s.dataBase).toNat

instance (i : Nat) : Decidable (s.Covered ack i) :=
  inferInstanceAs (Decidable (_ < _))

/-- What is left of the queue when the covered bytes are gone. -/
def uncovered : Bytes :=
  (s.out.zipIdx.filter fun p => !decide (s.Covered ack p.2)).map Prod.fst

/-- `rx_ack` takes the covered bytes and no others for a number in flight, and nothing for a stale
one. -/
def AckExact : Prop :=
  ∃ s', s.rxAck ack = .ok s' ∧ (s.InFlight ack → s'.out = s.uncovered ack) ∧
    (s.Stale ack → s'.out = s.out)

/-! ## The queue afterwards -/

theorem zipIdx_filter_ge (l : Bytes) (n m : Nat) (h : m ≤ n) :
    ((l.zipIdx m).filter fun p => !decide (p.2 < n)).map Prod.fst = l.drop (n - m) := by
  induction l generalizing m with
  | nil => simp
  | cons b l ih =>
    rw [List.zipIdx_cons, List.filter_cons]
    rcases Nat.eq_or_lt_of_le h with rfl | hlt
    · -- nothing is covered any more
      have hall : ∀ p ∈ l.zipIdx (m + 1), (!decide (p.2 < m)) = true := by
        intro p hp
        have hge := List.le_snd_of_mem_zipIdx hp
        simp only [Bool.not_eq_true', decide_eq_false_iff_not]
        omega
      simp [List.filter_eq_self.mpr hall]
    · rw [if_neg (by simpa using hlt), ih (m + 1) hlt]
      obtain ⟨k, rfl⟩ : ∃ k, n = m + 1 + k := ⟨n - (m + 1), by omega⟩
      rw [show m + 1 + k - m = k + 1 by omega, show m + 1 + k - (m + 1) = k by omega,
        List.drop_succ_cons]

theorem uncovered_eq : s.uncovered ack = s.out.drop (ack - s.dataBase).toNat := by
  have h := zipIdx_filter_ge s.out (ack - s.dataBase).toNat 0 (Nat.zero_le _)
  rw [Nat.sub_zero] at h
  exact h

theorem acked_out : (s.acked ack).out = s.out.drop (s.advance ack) := by
  have hcons : (s.consumed ack).out = s.out.drop (s.advance ack) := by
    unfold consumed
    split
    · rename_i h0
      rw [h0, List.drop_zero]
    · rfl
  obtain ⟨_, _, _, _, _, he, -⟩ := s.acked_eq ack
  rw [he]
  exact hcons

/-- The condition: an old acknowledgement finds nothing outstanding. -/
def NoneOutstanding : Prop :=
  s.Stale ack → s.sent = 0

variable {s ack}

theorem rxAck_exact_iff (h : Reachable s) : s.AckExact ack ↔ s.NoneOutstanding ack := by
  have hfit := h.fit
  have hsent : s.sent ≤ 512 := Nat.le_trans hfit.sent hfit.out
  constructor
  · rintro ⟨s', hs', -, hstale⟩ hold
    rw [rxAck_ok hfit] at hs'
    cases hs'
    -- the difference is at least half the circle, so all that was sent goes
    have hadv : s.advance ack = s.sent := by
      have hfar := seqLt_iff.mp hold
      exact Nat.min_eq_right (by omega)
    have hlen := congrArg List.length (hstale hold)
    rw [acked_out, hadv, List.length_drop] at hlen
    have hle := hfit.sent
    omega
  · intro hcond
    refine ⟨_, rxAck_ok hfit ack, ?_, ?_⟩
    · intro hin
      rw [acked_out, uncovered_eq, advance, Nat.min_eq_left hin]
    · intro hold
      have hadv : s.advance ack = 0 := by
        have hle := s.advance_le ack
        rw [hcond hold] at hle
        omega
      rw [acked_out, hadv, List.drop_zero]

end TcpSocket

/-! ## A connection -/

/-- The operation as a function; `none` where it panics. -/
def TcpSocket.next (s : TcpSocket) (op : SockOp) : Option TcpSocket :=
  match s.run op with
  | .ok (s', _) => some s'
  | .error _ => none

theorem TcpSocket.next_does {s s' : TcpSocket} {op : SockOp} (h : s.next op = some s') :
    s.Does op s' := by
  unfold TcpSocket.next at h
  split at h
  · rename_i os ho
    cases h
    exact ⟨os, ho⟩
  · cases h

/-- A segment from the peer of a test connection. -/
def peerSeg (seq ack : UInt32) (syn ackFlag : Bool) (payload : Bytes) : TcpSeg :=
  ⟨seq, ack, syn, ackFlag, false, false, 1024, payload, Vector.replicate 4 10, 4000,
    Vector.replicate 6 2⟩

/-- A listener on port 7 is opened by a peer. -/
def accepts : List SockOp :=
  [.segment (peerSeg 100 0 true false []) 0, .segment (peerSeg 101 0x70008 false true []) 0]

/-- The connection sends three bytes. -/
def threeSent : List SockOp :=
  accepts ++ [.write [1, 2, 3], .poll 0]

theorem listener_reaches (ops : List SockOp) {p : TcpSocket → Bool}
    (h : (LTS.exec TcpSocket.next (TcpSocket.listen 7) ops).any p = true) :
    ∃ s, TcpSocket.Reachable s ∧ p s = true := by
  obtain ⟨s, hs, hp⟩ := LTS.exec_any _ _ _ p h
  exact ⟨s, ⟨_, _, .listen 7, LTS.Run.of_exec (fun _ _ _ => TcpSocket.next_does) hs⟩, hp⟩

namespace TcpSocket

/-- Two of the three bytes are acknowledged. -/
theorem rxAck_exact_iff_threeSent : ∃ s, Reachable s ∧ s.out = [1, 2, 3] ∧
    (s.AckExact 0x7000a ↔ s.NoneOutstanding 0x7000a) ∧ s.AckExact 0x7000a := by
  obtain ⟨s, hs, hp⟩ := listener_reaches threeSent
    (p := fun s => s.out == [1, 2, 3] && !seqLt 0x7000a s.dataBase) (by decide +kernel)
  simp only [Bool.and_eq_true, beq_iff_eq, Bool.not_eq_true'] at hp
  refine ⟨s, hs, hp.1, rxAck_exact_iff hs, (rxAck_exact_iff hs).mpr fun hold => ?_⟩
  rw [Stale, hp.2] at hold
  cases hold

/-- The acknowledgement of the SYN, late: all three bytes are taken for acknowledged. -/
theorem old_ack_drops_queue : ¬ ∀ (s : TcpSocket) (ack : UInt32), Reachable s → s.AckExact ack := by
  intro hall
  obtain ⟨s, hs, hp⟩ := listener_reaches threeSent
    (p := fun s => s.out == [1, 2, 3] && seqLt 0x70007 s.dataBase &&
      (s.acked 0x70007).out == []) (by decide +kernel)
  simp only [Bool.and_eq_true, beq_iff_eq] at hp
  obtain ⟨s', hs', -, hstale⟩ := hall s 0x70007 hs
  rw [rxAck_ok hs.fit] at hs'
  obtain rfl := Except.ok.inj hs'
  have hout := hstale hp.1.2
  rw [hp.2, hp.1.1] at hout
  cases hout

end TcpSocket

end Net

end Tanix
