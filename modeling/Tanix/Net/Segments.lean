/-
# `Tanix.Net.Segments` — all that a socket ever sends

`Log` follows a connection from its opening, with what the application wrote and what the
socket sent.

    data   every payload is a piece of what was written, under its numbers (`data_in_place`)
-/
import Tanix.Net.Handshake

namespace Tanix.Net

open List LTS TcpSocket

/-! ## The history -/

/-- A connection, with all that was written by the application and sent by the socket. -/
structure Log where
  sock : TcpSocket
  written : Bytes
  emitted : List TcpOut

variable {s s' s₀ : TcpSocket} {σ : Stream} {g : TcpSeg} {now : Nat} {os : List TcpOut}
  {op : SockOp} {ops : List SockOp} {l l' : Log}

namespace Log

def start (s : TcpSocket) : Log :=
  ⟨s, [], []⟩

def Step (l : Log) (op : SockOp) (l' : Log) : Prop :=
  ∃ s os, l.sock.run op = .ok (s, os) ∧
    l' = ⟨s, l.written ++ op.writes l.sock, l.emitted ++ os⟩

/-- A connection begins with `connect`, or with the SYN that a listener takes. -/
inductive Begins : TcpSocket → Prop
  | connect (ip : Ip4) (dport sport : UInt16) (now : Nat) (mac : Mac) (s : TcpSocket)
      (h : TcpSocket.connect ip dport sport now = .ok s) : Begins { s with peerMac := mac }
  | accept (t s : TcpSocket) (g : TcpSeg) (now : Nat) (h : Reachable t) (hst : t.state = .listen)
      (hd : Does t (.segment g now) s) (hopen : s.state ≠ .listen) : Begins s

end Log

/-! ## The data -/

/-- The payload is a piece of the stream, under its numbers. -/
def Stream.Holds (σ : Stream) (o : TcpOut) : Prop :=
  o.payload ≠ [] → ∃ before after, σ.written = before ++ o.payload ++ after ∧
    o.seq = σ.seqAt before.length

/-- An open socket that sends the stream, one segment at a time. -/
structure Stream.Feeds (σ : Stream) (s : TcpSocket) : Prop extends σ.Queues s where
  fit : s.Fit
  even : s.inflight = s.sent
  isOpen : s.state ≠ .listen

namespace Stream.Feeds

theorem polls (h : σ.Feeds s) (hp : s.Polls now s' os) : ∀ o ∈ os, σ.Holds o := by
  intro o ho hne
  have hle := h.fit.inflight
  have hsent := h.fit.sent
  cases hp with
  | quiet | gaveUp => cases ho
  | resent | fresh =>
    rw [mem_singleton.mp ho] at hne ⊢
    exact (h.carries_data h.fit (by omega)).data hne
  | handshake =>
    refine absurd ?_ hne
    rw [mem_singleton.mp ho]
    split <;> rfl
  | fin | finAgain =>
    refine absurd ?_ hne
    rw [mem_singleton.mp ho]
    rfl

theorem segment (h : σ.Feeds s) (hseg : s.Segment g now s' os) :
    σ.Queues s' ∧ s'.inflight = s'.sent ∧ ∀ o ∈ os, σ.Holds o := by
  cases hseg with
  | ignored | reset => exact ⟨h.keep rfl rfl, h.even, by simp⟩
  | processed _ _ hb =>
    have hlink := sameLink_ackedBy s g
    have hst := h.isOpen
    rw [← hlink.state] at hst
    have hacked : (s.ackedBy g).inflight = (s.ackedBy g).sent := by
      unfold TcpSocket.ackedBy
      split
      · obtain ⟨_, _, _, _, _, he, -⟩ := acked_eq { s with peerWnd := g.window.toNat } g.ack
        rw [he]
        unfold TcpSocket.consumed
        split
        · exact h.even
        · exact congrArg (· - _) h.even
      · exact h.even
    obtain ⟨hs, hos⟩ := byState_same (σ := σ) hst (hlink.iss.trans h.iss) hb
    exact ⟨(h.ackedBy h.fit g).same hs.toSameSend, hs.inflight.trans (hacked.trans hs.sent.symm),
      fun o ho => (hos o ho).data⟩

theorem run (h : σ.Feeds s) (hr : s.run op = .ok (s', os)) :
    (σ.push (op.writes s)).Feeds s' ∧ ∀ o ∈ os, σ.Holds o := by
  have hrest : (σ.push (op.writes s)).Queues s' ∧ s'.inflight = s'.sent ∧ ∀ o ∈ os, σ.Holds o := by
    have hnil : σ.push [] = σ := by rw [push, append_nil]
    cases op with
    | segment g now =>
      change (σ.push []).Queues s' ∧ _
      rw [hnil]
      exact h.segment (rxSegment_segment h.fit hr)
    | write data =>
      have hl := run_local rfl hr
      cases hr
      exact ⟨h.write data, hl.even h.even, by simp⟩
    | poll now =>
      have hl := run_local rfl hr
      change (σ.push []).Queues s' ∧ _
      rw [hnil]
      exact ⟨h.keep hl.iss (hl.queue.resolve_left (by simp)), hl.even h.even, h.polls (poll_ok hr)⟩
    | read | close | takeNotify =>
      have hl := run_local rfl hr
      cases hr
      change (σ.push []).Queues _ ∧ _
      rw [hnil]
      exact ⟨h.keep hl.iss (hl.queue.resolve_left (by simp)), hl.even h.even, by simp⟩
  exact ⟨⟨hrest.1, h.fit.does ⟨os, hr⟩, hrest.2.1, (Link.run_open op h.fit h.isOpen hr).1⟩,
    hrest.2.2⟩

end Stream.Feeds

namespace Log

/-- What was written so far. -/
def stream (l : Log) : Stream :=
  ⟨l.sock.iss, l.written, false⟩

structure Inv (l : Log) : Prop where
  feeds : l.stream.Feeds l.sock
  holds : ∀ o ∈ l.emitted, l.stream.Holds o

theorem Inv.step (h : l.Inv) (hs : Step l op l') : l'.Inv := by
  obtain ⟨s', os, hr, rfl⟩ := hs
  obtain ⟨hfeeds, hos⟩ := h.feeds.run hr
  have hstream : stream ⟨s', l.written ++ op.writes l.sock, l.emitted ++ os⟩ =
      l.stream.push (op.writes l.sock) := by
    rw [stream, hfeeds.iss]
    rfl
  refine ⟨by rw [hstream]; exact hfeeds, fun o ho hp => ?_⟩
  have hold : l.stream.Holds o := (mem_append.mp ho).elim (h.holds o) (hos o)
  obtain ⟨before, after, hw, hseq⟩ := hold hp
  rw [hstream]
  refine ⟨before, after ++ op.writes l.sock, ?_, hseq⟩
  rw [← append_assoc, ← hw]
  rfl

theorem Begins.inv (h : Begins s) : (start s).Inv := by
  cases h with
  | connect ip dport sport now mac s h =>
    have hfit := (Fresh.connect _ _ _ _ mac _ h).fit
    obtain ⟨d, -, h⟩ := bind_eq_ok.mp h
    cases h
    exact ⟨⟨(Stream.Sends.fresh rfl rfl rfl rfl rfl false).queues, hfit, rfl, fun hl => by cases hl⟩,
      by simp [start]⟩
  | accept t s g now h hst hd hopen =>
    have hfit := h.fit.does hd
    obtain ⟨os, hr⟩ := hd
    have hst' := (sameLink_ackedBy t g).state.trans hst
    cases rxSegment_segment h.fit hr with
    | ignored | reset => exact absurd hst hopen
    | processed _ _ hb =>
      rcases hb.of_listen hst' with ⟨-, rfl, -⟩ | ⟨-, rfl, -⟩
      · exact absurd hst' hopen
      · exact ⟨⟨(Stream.Sends.fresh rfl rfl rfl rfl rfl false).queues, hfit, rfl, hopen⟩,
          by simp [start]⟩

/-- What is outstanding is all that was sent, that lies in the queue, and every segment of the
connection carries the bytes that its number says. -/
theorem data_in_place (h₀ : Begins s₀) (hrun : Run Step (start s₀) ops l)
    (hlen : l.written.length < 2 ^ 32) :
    l.sock.inflight = l.sock.sent ∧ l.sock.sent ≤ l.sock.out.length ∧ ∀ o ∈ l.emitted,
      o.payload = (l.written.drop (o.seq - (l.sock.iss + 1)).toNat).take o.payload.length := by
  have hinv : l.Inv := hrun.invariant (fun _ _ _ h hs => h.step hs) h₀.inv
  refine ⟨hinv.feeds.even, hinv.feeds.fit.sent, fun o ho => ?_⟩
  rcases eq_or_ne o.payload [] with hp | hp
  · rw [hp]
    rfl
  · obtain ⟨before, after, hw, hseq⟩ := hinv.holds o ho hp
    change l.written = _ at hw
    have hle : before.length < 2 ^ 32 := by
      rw [hw, length_append, length_append] at hlen
      omega
    rw [hseq, Stream.seqAt, stream, toNat_add_sub _ hle, hw, append_assoc, drop_left, take_left]

/-- The step as a function; `none` where the socket panics. -/
def next (l : Log) (op : SockOp) : Option Log :=
  match l.sock.run op with
  | .ok (s, os) => some ⟨s, l.written ++ op.writes l.sock, l.emitted ++ os⟩
  | .error _ => none

theorem next_step (h : next l op = some l') : Step l op l' := by
  unfold next at h
  split at h
  · rename_i s os hr
    cases h
    exact ⟨s, os, hr, rfl⟩
  · cases h

theorem begins_connecting : Begins connecting :=
  .connect _ _ _ _ (.replicate 6 2) _ connecting_eq

theorem data_in_place_three : ∃ l : Log, l.written = [1, 2, 3] ∧
    (l.emitted.map fun o => (o.seq, o.payload)) = [(0x50006, []), (0x50006, [1, 2, 3])] ∧
    ∀ o ∈ l.emitted,
      o.payload = (l.written.drop (o.seq - (l.sock.iss + 1)).toNat).take o.payload.length := by
  obtain ⟨l, hrun, hw, he⟩ := Run.exists_of_exec next next_step (start connecting)
    [.segment (peerSeg 100 0x50006 true true []) 0, .write [1, 2, 3], .poll 0]
    (fun l => l.written = [1, 2, 3] ∧
      (l.emitted.map fun o => (o.seq, o.payload)) = [(0x50006, []), (0x50006, [1, 2, 3])])
    (by decide +kernel)
  exact ⟨l, hw, he, (data_in_place begins_connecting hrun (by rw [hw]; decide)).2.2⟩

end Log

end Tanix.Net
