/-
# `Tanix.Net.Handshake` — how a connection is opened

The two sides of the handshake, over everything that may arrive.

    a listener       is closed by the first segment without SYN, whatever else is in it
    an active open   ends with the peer's SYN, once `iss + 1` has been acknowledged

The acknowledgement and the SYN need not come together: `rx_ack` notes the first in `syn_acked`,
and `rx_segment` asks for the flag alone when a SYN comes later.  So the socket waits for a SYN-ACK
as long as nothing acknowledges its SYN without one (`established_by_synAck`).
-/
import Tanix.Net.Connection

namespace Tanix.Net.TcpSocket

open LTS

variable {s s' : TcpSocket} {g : TcpSeg} {now : Nat} {os : List TcpOut} {op : SockOp}

/-! ## A listener -/

/-- Segments, each with the time at which it arrives. -/
def arrivals (gs : List (TcpSeg × Nat)) : List SockOp :=
  gs.map fun p => .segment p.1 p.2

/-- A SYN is answered with a SYN-ACK. -/
def Answers (s : TcpSocket) : Prop :=
  ∀ g now, g.syn = true → g.rst = false → now + rtoTicks < 2 ^ 64 →
    ∃ s', s.rxSegment g now = .ok (s', [s'.sendSynAck g.peerMac g.peerIp])

def Survives (s : TcpSocket) (gs : List (TcpSeg × Nat)) : Prop :=
  ∃ s', Run Does s (arrivals gs) s' ∧ s'.state = .listen ∧ s'.dead = false ∧ s'.Answers

theorem answers_of_listen (hfit : s.Fit) (hst : s.state = .listen) (hd : s.dead = false) :
    s.Answers := by
  intro g now hsyn hr hnow
  have hst' : (s.ackedBy g).state = .listen := (sameLink_ackedBy s g).state.trans hst
  rcases @rxSegment_cases s g now hfit with ⟨s', os, ho, hseg⟩ | ⟨-, -, ht, -⟩
  · cases hseg with
    | ignored h => cases hd.symm.trans h
    | reset _ h => cases hr.symm.trans h
    | processed _ _ hb =>
      rcases hb.of_listen hst' with ⟨hno, -⟩ | ⟨-, rfl, rfl⟩
      · cases hsyn.symm.trans hno
      · exact ⟨_, ho⟩
  · exact absurd hnow (Nat.not_lt.mpr ht.2.2)

/-- A segment without SYN closes a listener. -/
theorem stray_closes (hfit : s.Fit) (hst : s.state = .listen) (hd : s.dead = false)
    (hsyn : g.syn = false) (h : Does s (.segment g now) s') : s'.dead = true := by
  obtain ⟨os, ho⟩ := h
  cases rxSegment_segment hfit ho with
  | ignored h => cases hd.symm.trans h
  | reset => rfl
  | processed _ _ hb =>
    rcases hb.of_listen ((sameLink_ackedBy s g).state.trans hst) with ⟨-, rfl, -⟩ | ⟨hyes, -⟩
    · rfl
    · cases hsyn.symm.trans hyes

theorem dead_of_arrivals {gs : List (TcpSeg × Nat)} (hd : s.dead = true)
    (h : Run Does s (arrivals gs) s') : s'.dead = true := by
  induction gs generalizing s with
  | nil =>
    cases h
    exact hd
  | cons p gs ih =>
    cases h with
    | cons hstep hrest =>
      obtain ⟨os, ho⟩ := hstep
      rw [run, rxSegment, if_pos hd] at ho
      cases ho
      exact ih hd hrest

/-- A listener survives segments without SYN exactly if there are none. -/
theorem survives_iff (h : Reachable s) (hst : s.state = .listen) (hd : s.dead = false)
    {gs : List (TcpSeg × Nat)} (hsyn : ∀ p ∈ gs, p.1.syn = false) : s.Survives gs ↔ gs = [] := by
  constructor
  · rintro ⟨s', hrun, -, hlive, -⟩
    cases gs with
    | nil => rfl
    | cons p gs =>
      cases hrun with
      | cons hstep hrest =>
        have hdead := stray_closes h.fit hst hd (hsyn p List.mem_cons_self) hstep
        cases hlive.symm.trans (dead_of_arrivals hdead hrest)
  · rintro rfl
    exact ⟨s, .nil s, hst, hd, answers_of_listen h.fit hst hd⟩

theorem survives_iff_port : (listen 7).Survives [] :=
  (survives_iff ⟨_, [], .listen 7, .nil _⟩ rfl rfl (by simp)).mpr rfl

/-- A bare acknowledgement arrives at a listener. -/
theorem stray_ack_closes : ¬ ∀ (s : TcpSocket) (gs : List (TcpSeg × Nat)), Reachable s →
    s.state = .listen → s.dead = false → (∀ p ∈ gs, p.1.syn = false) → s.Survives gs := by
  intro hall
  obtain ⟨s', hrun, -, hlive, -⟩ := hall (listen 7) [(peerSeg 1 1 false true [], 0)]
    ⟨_, [], .listen 7, .nil _⟩ rfl rfl (by decide)
  cases hrun with
  | cons hstep hrest =>
    cases hrest
    cases hlive.symm.trans (stray_closes (Fresh.listen 7).fit rfl rfl rfl hstep)

/-! ## An active open -/

/-- The answer to the socket's SYN. -/
def SynAck (s : TcpSocket) (g : TcpSeg) : Prop :=
  g.syn = true ∧ g.ackFlag = true ∧ g.ack = s.iss + 1

/-- A connecting socket gets no acknowledgement of its SYN but with the peer's. -/
def AcksWithSyn (s : TcpSocket) : SockOp → Prop
  | .segment g _ => s.state = .synSent → g.ackFlag = true → g.ack = s.iss + 1 → g.syn = true
  | _ => True

/-- The socket has heard nothing of its SYN, or the handshake is over. -/
inductive Opening (s : TcpSocket) : Prop
  | waiting (hst : s.state = .synSent) (hack : s.synAcked = false) (hnxt : s.sndNxt = s.iss + 1)
      (hout : s.out = [])
  | past (hst : s.state = .established ∨ s.state = .closeWait)

/-- What an acknowledgement does to a socket that waits. -/
theorem ackedBy_waiting (hfit : s.Fit) (hst : s.state = .synSent) (hack : s.synAcked = false)
    (hnxt : s.sndNxt = s.iss + 1) (hout : s.out = []) (g : TcpSeg) :
    ((s.ackedBy g).synAcked = true ↔ g.ackFlag = true ∧ g.ack = s.iss + 1) ∧
      (s.ackedBy g).sndNxt = s.sndNxt ∧ (s.ackedBy g).out = [] := by
  have hadv : ∀ n, ({ s with peerWnd := n } : TcpSocket).advance g.ack = 0 := by
    intro n
    have hle := ({ s with peerWnd := n } : TcpSocket).advance_le g.ack
    have hsent := hfit.sent
    rw [hout] at hsent
    exact Nat.le_zero.mp (Nat.le_trans hle hsent)
  unfold ackedBy
  cases hf : g.ackFlag with
  | false => simp [hack, hout]
  | true =>
    simp only [if_true, true_and]
    rw [acked, consumed, if_pos (hadv _)]
    by_cases hyes : g.ack = s.iss + 1
    · have hsyn : ∀ n, ({ s with peerWnd := n } : TcpSocket).ackSyn g.ack =
          { s with peerWnd := n, synAcked := true, rtoDeadline := 0 } := by
        intro n
        simp [ackSyn, hst, hack, hnxt, hyes]
      rw [hsyn, ackFin]
      split
      · split <;> simp [close, hyes, hout]
      · simp [hyes, hout]
    · have hsyn : ∀ n, ({ s with peerWnd := n } : TcpSocket).ackSyn g.ack =
          { s with peerWnd := n } := by
        intro n
        simp [ackSyn, hnxt, hyes]
      rw [hsyn, ackFin]
      split
      · split <;> simp [close, hyes, hout, hack]
      · simp [hyes, hout, hack]

/-- A SYN at a socket that waits. -/
theorem answered_cases (hack : s.synAcked = true → g.ackFlag = true ∧ g.ack = s.iss + 1) :
    ((g.ackFlag = true ∧ g.ack = s.iss + 1) ∧ (s.answered g).state = .established) ∨
      (s.synAcked = false ∧ s.answered g = { s with rcvNxt := g.seq + 1 }) := by
  by_cases hok : g.ackFlag = true ∧ g.ack = s.iss + 1
  · refine Or.inl ⟨hok, ?_⟩
    simp [answered, rxSynack, hok, establish]
  · have hno : s.synAcked = false := Bool.eq_false_iff.mpr fun hyes => hok (hack hyes)
    have hsyn : s.rxSynack g = ({ s with rcvNxt := g.seq + 1 }, []) := by
      rw [rxSynack, if_pos]
      simpa [Bool.and_eq_false_iff, imp_iff_not_or] using hok
    refine Or.inr ⟨hno, ?_⟩
    rw [answered, hsyn]
    exact if_neg (by simp [hno])

theorem Opening.segment (h : Opening s) (hfit : s.Fit) (hseg : Segment s g now s' os) :
    (AcksWithSyn s (.segment g now) → Opening s') ∧
      (s.state ≠ .established → s'.state = .established → SynAck s g) := by
  have hlink := sameLink_ackedBy s g
  cases h with
  | waiting hst hack hnxt hout =>
    cases hseg with
    | ignored | reset =>
      exact ⟨fun _ => .waiting hst hack hnxt hout, fun _ hest => by cases hst.symm.trans hest⟩
    | processed _ _ hb =>
      obtain ⟨hiff, hnxt', hout'⟩ := ackedBy_waiting hfit hst hack hnxt hout g
      have hst' := hlink.state.trans hst
      have hnxt' : (s.ackedBy g).sndNxt = (s.ackedBy g).iss + 1 := by rw [hnxt', hnxt, hlink.iss]
      cases hb with
      | silent _ hsyn =>
        refine ⟨fun hg => .waiting hst' ?_ hnxt' hout', fun _ hest => by cases hst'.symm.trans hest⟩
        refine Bool.eq_false_iff.mpr fun hyes => ?_
        obtain ⟨hf, ha⟩ := hiff.mp hyes
        cases hsyn.symm.trans (hg hst hf ha)
      | answered _ hsyn =>
        rw [← hlink.iss] at hiff
        rcases answered_cases hiff.mp with ⟨hok, hest⟩ | ⟨hno, hsame⟩
        · rw [hlink.iss] at hok
          exact ⟨fun _ => .past (tookBody_state (Or.inl hest) g true), fun _ _ => ⟨hsyn, hok⟩⟩
        · have hsend := (Stream.sameQueue_answered (s.ackedBy g) g).trans
            (Stream.sameQueue_tookBody _ g true)
          have hstate : (((s.ackedBy g).answered g).tookBody g true).state = .synSent := by
            rcases tookBody_state_cases ((s.ackedBy g).answered g) g true with h | ⟨-, h, -⟩
            · rw [h, hsame]
              exact hst'
            · cases h
          refine ⟨fun _ => .waiting hstate ?_ ?_ ?_, fun _ hest => by cases hstate.symm.trans hest⟩
          · obtain ⟨_, _, _, _, _, he, -⟩ := tookBody_eq ((s.ackedBy g).answered g) g true
            rw [he, hsame]
            exact hno
          · rw [hsend.sndNxt, hsend.iss, hnxt']
          · rw [hsend.out, hout']
      | stray h | opened h | reopened h | pending h | completed h => cases hst'.symm.trans h
      | flowing h => rcases h with h | h <;> cases hst'.symm.trans h
  | past hst =>
    cases hseg with
    | ignored | reset => exact ⟨fun _ => .past hst, fun hno hest => absurd hest hno⟩
    | processed _ _ hb =>
      have hst' : (s.ackedBy g).state = .established ∨ (s.ackedBy g).state = .closeWait := by
        rw [hlink.state]
        exact hst
      obtain ⟨rfl, -⟩ := hb.of_live hst'
      refine ⟨fun _ => .past (tookBody_state hst' g false), fun hno hest => ?_⟩
      -- `CloseWait` is not left
      rcases (s.ackedBy g).tookBody_state_cases g false with h | ⟨h, -⟩
      · exact absurd (hlink.state.symm.trans (h.symm.trans hest)) hno
      · exact absurd (hlink.state.symm.trans h) hno

/-- The application and the timer do not move the queue of a socket that connects. -/
theorem run_opening (hin : op.inbound = false) (hr : s.run op = .ok (s', os))
    (hst : s.state = .synSent) : s'.sndNxt = s.sndNxt ∧ s'.out = s.out := by
  rcases (run_local hin hr).queue with ⟨data, rfl⟩ | hq
  · cases hr
    rcases s.appWrite_cases data with he | ⟨hopen, -⟩
    · rw [he]
      exact ⟨rfl, rfl⟩
    · rcases hopen with h | h <;> cases hst.symm.trans h
  · simp only [Prod.mk.injEq] at hq
    exact ⟨hq.2.2, hq.1⟩

/-- One operation: the socket goes on waiting unless its SYN is acknowledged alone, and only a SYN-ACK
ends the wait. -/
theorem Opening.does (h : Opening s) (hfit : s.Fit) (hd : Does s op s') :
    (AcksWithSyn s op → Opening s') ∧ (s.state ≠ .established → s'.state = .established →
      ∃ g now, op = .segment g now ∧ SynAck s g) := by
  obtain ⟨os, ho⟩ := hd
  cases hin : op.inbound with
  | true =>
    cases op with
    | segment g now =>
      obtain ⟨hkeeps, hends⟩ := h.segment hfit (rxSegment_segment hfit ho)
      exact ⟨hkeeps, fun hno hest => ⟨g, now, rfl, hends hno hest⟩⟩
    | write | read | close | takeNotify | poll => cases hin
  | false =>
    have hl := run_local hin ho
    refine ⟨fun _ => ?_, fun hno hest => absurd (hl.state.symm.trans hest) hno⟩
    cases h with
    | waiting hst hack hnxt hout =>
      obtain ⟨hnxt', hout'⟩ := run_opening hin ho hst
      exact .waiting (hl.state.trans hst) (hl.synAcked.trans hack) (by rw [hnxt', hl.iss, hnxt])
        (hout'.trans hout)
    | past hst => exact .past (by rw [hl.state]; exact hst)

/-- As long as no segment acknowledges the SYN without the peer's SYN, a socket made by `connect`
becomes established by a SYN-ACK only. -/
theorem established_by_synAck {s₀ : TcpSocket} {ip : Ip4} {dport sport : UInt16} {mac : Mac}
    (h₀ : connect ip dport sport now = .ok s₀) {ops : List SockOp}
    (hrun : Run (guarded Does AcksWithSyn) { s₀ with peerMac := mac } ops s) (hd : Does s op s')
    (hno : s.state ≠ .established) (hest : s'.state = .established) :
    ∃ g now, op = .segment g now ∧ SynAck s g := by
  have hinv : s.Fit ∧ Opening s := by
    refine hrun.invariant_guarded (I := fun s => s.Fit ∧ Opening s) ?_
      ⟨(Fresh.connect _ _ _ _ mac _ h₀).fit, ?_⟩
    · exact fun s op s' h hg hd => ⟨h.1.does hd, (h.2.does h.1 hd).1 hg⟩
    · obtain ⟨d, -, h₀⟩ := bind_eq_ok.mp h₀
      cases h₀
      exact .waiting rfl rfl rfl rfl
  exact (hinv.2.does hinv.1 hd).2 hno hest

/-- Port 5 has sent its SYN to the peer of the test connection. -/
def connecting : TcpSocket :=
  { blank 5 with
    state := .synSent, peerIp := .replicate 4 10, peerPort := 4000, peerMac := .replicate 6 2
    iss := 0x50005, sndNxt := 0x50006, dataBase := 0x50006, rtoDeadline := rtoTicks }

theorem connecting_eq :
    connect (.replicate 4 10) 4000 5 0 = .ok { connecting with peerMac := macZero } := by
  decide +kernel

theorem established_by_synAck_first : ∃ s', Does connecting (.segment (peerSeg 100 0x50006 true true []) 0) s' ∧
    s'.state = .established ∧ ∃ g now, SockOp.segment (peerSeg 100 0x50006 true true []) 0 =
      .segment g now ∧ SynAck connecting g := by
  obtain ⟨s', hrun, hest⟩ := Run.exists_of_exec next next_does connecting
    [.segment (peerSeg 100 0x50006 true true []) 0] (fun s => s.state = .established) (by decide +kernel)
  cases hrun with
  | cons hd hnil =>
    cases hnil
    exact ⟨_, hd, hest, established_by_synAck connecting_eq (.nil connecting) hd (by decide) hest⟩

/-- The SYN is acknowledged alone, and then a SYN comes that acknowledges nothing. -/
theorem bare_syn_establishes : ¬ ∀ (ip : Ip4) (dport sport : UInt16) (now : Nat) (mac : Mac)
    (s₀ s s' : TcpSocket) (ops : List SockOp) (op : SockOp), connect ip dport sport now = .ok s₀ →
    Run Does { s₀ with peerMac := mac } ops s → Does s op s' → s.state ≠ .established →
    s'.state = .established → ∃ g now, op = .segment g now ∧ SynAck s g := by
  intro hall
  obtain ⟨s, hrun, hno, hyes⟩ := Run.exists_of_exec next next_does connecting
    [.segment (peerSeg 0 0x50006 false true []) 0] (fun s => s.state ≠ .established ∧
      (exec next s [.segment (peerSeg 100 0 true false []) 0]).any
        (fun s' => decide (s'.state = .established)) = true) (by decide +kernel)
  obtain ⟨s', hrun', hest⟩ := Run.exists_of_exec next next_does s _ _ hyes
  cases hrun' with
  | cons hd hnil =>
    cases hnil
    obtain ⟨g, now, hop, -, hf, -⟩ := hall _ _ _ _ _ _ _ _ _ _ connecting_eq hrun hd hno hest
    cases hop
    cases hf

end Tanix.Net.TcpSocket
