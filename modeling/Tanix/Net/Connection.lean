/-
# `Tanix.Net.Connection` — two endpoints and a network between them

Both ends of a connection run the socket code.  The network is the set of all segments
ever sent: any of them may arrive, at any time, any number of times, or never.  A segment
that nobody sent never arrives.

    toA, toB   a segment arrives at the sender, at the receiver; the receiver's
               application then drains its buffer
    atA, atB   the application acts, or the socket is polled

`Link.Inv` joins the two halves of `Net/Stream`: the sender sends its stream, the network
carries it, and the receiver follows it.  What has been read is then a front of what was
written, in every state of every run (`prefix_safe`).
-/
import Tanix.Net.Stream

namespace Tanix

open List

namespace Net

/-! ## The system -/

/-- An address of an endpoint. -/
structure Addr where
  ip : Ip4
  port : UInt16

/-- The sender `a`, the receiver `b`, all that they have sent, and what their applications did. -/
structure Link where
  a : TcpSocket
  b : TcpSocket
  /-- sent by `a` -/
  ab : List TcpOut
  /-- sent by `b` -/
  ba : List TcpOut
  /-- accepted by `app_write` at `a` -/
  written : Bytes
  /-- `a` was asked to close -/
  closed : Bool
  /-- read at `b` -/
  read : Bytes

/-- A socket that listens, or has just sent its SYN. -/
inductive Opens (me peer : Addr) : TcpSocket → List TcpOut → Prop
  | listen : Opens me peer (.listen me.port) []
  | connect (s : TcpSocket) (mac : Mac) (now : Nat)
      (h : TcpSocket.connect peer.ip peer.port me.port now = .ok s) :
      Opens me peer { s with peerMac := mac } [s.sendSyn mac peer.ip]

/-- A segment arrives where this socket was bound: a dead socket is passed over, and the stack
refuses a SYN. -/
def TcpSocket.arrive (s : TcpSocket) (g : TcpSeg) (now : Nat) :
    Except Fault (TcpSocket × List TcpOut) :=
  if s.dead then .ok (s, if g.syn then [NetStack.refusal s.localPort g] else [])
  else s.rxSegment g now

inductive LinkOp where
  | toA (o : TcpOut) (mac : Mac) (now : Nat)
  | toB (o : TcpOut) (mac : Mac) (now : Nat)
  | atA (op : SockOp)
  | atB (op : SockOp)

/-- The bytes an operation adds to the stream. -/
def SockOp.writes (s : TcpSocket) : SockOp → Bytes
  | .write data => Stream.accepted s data
  | _ => []

def SockOp.isClose : SockOp → Bool
  | .close => true
  | _ => false

namespace Link

/-- One step, between `a` at `pa` and `b` at `pb`. -/
def Step (pa pb : Addr) (c : Link) : LinkOp → Link → Prop
  | .toA o mac now, c' => o ∈ c.ba ∧ ∃ s os, c.a.arrive (o.seen pb.ip mac) now = .ok (s, os) ∧
      c' = { c with a := s, ab := c.ab ++ os }
  | .toB o mac now, c' => o ∈ c.ab ∧ ∃ s os, c.b.arrive (o.seen pa.ip mac) now = .ok (s, os) ∧
      c' = { c with
        b := (s.appRead rxBuf).1, ba := c.ba ++ os, read := c.read ++ (s.appRead rxBuf).2 }
  | .atA op, c' => op.inbound = false ∧ ∃ s os, c.a.run op = .ok (s, os) ∧
      c' = { c with
        a := s, ab := c.ab ++ os, written := c.written ++ op.writes c.a
        closed := c.closed || op.isClose }
  | .atB op, c' => op.inbound = false ∧ ∃ s os, c.b.run op = .ok (s, os) ∧
      c' = { c with b := s, ba := c.ba ++ os, read := c.read ++ op.reads c.b }

/-- Nothing has happened but the two opens. -/
inductive Init (pa pb : Addr) : Link → Prop
  | mk (a b : TcpSocket) (ab ba : List TcpOut) (ha : Opens pa pb a ab) (hb : Opens pb pa b ba) :
      Init pa pb ⟨a, b, ab, ba, [], false, []⟩

/-- The sender's application does not write after it asked to close. -/
def WritesOpen (c : Link) : LinkOp → Prop
  | .atA (.write _) => c.closed = false
  | _ => True

/-- The stream from `a` to `b`. -/
def stream (c : Link) : Stream :=
  ⟨c.a.iss, c.written, c.closed⟩

/-! ## The sender's half -/

/-- A refused SYN. -/
def Refuses (o : TcpOut) : Prop :=
  o.flags = flagRst ||| flagAck ∧ o.payload = []

/-- The sender, before a SYN has come to it and after it has left `Listen`. -/
structure Sender (s : TcpSocket) (written : Bytes) (closed : Bool) (sent : List TcpOut) : Prop where
  fit : s.Fit
  listening : s.state = .listen → (∀ o ∈ sent, Refuses o) ∧ written = [] ∧ s.peerMac = macZero
  sends : s.state ≠ .listen → Stream.Sends ⟨s.iss, written, closed⟩ s
  carries : ∀ o ∈ sent, Stream.Carries ⟨s.iss, written, closed⟩ o

variable {s s' : TcpSocket} {written : Bytes} {closed : Bool} {sent os : List TcpOut} {now : Nat}

variable {o : TcpOut}

theorem Refuses.carries (h : Refuses o) (σ : Stream) : σ.Carries o := by
  have hflags : (flagRst ||| flagAck) &&& flagSyn = 0 ∧ (flagRst ||| flagAck) &&& flagFin = 0 := by
    decide
  refine .bare ?_ ?_ h.2
  · rw [h.1]
    exact hflags.1
  · rw [h.1]
    exact hflags.2

/-- A change of an open socket that keeps its stream. -/
theorem Sender.open (h : Sender s written closed sent) (hfit : s'.Fit) (hst : s'.state ≠ .listen)
    (hiss : s'.iss = s.iss) (hs : Stream.Sends ⟨s.iss, written, closed⟩ s')
    (hos : ∀ o ∈ os, Stream.Carries ⟨s.iss, written, closed⟩ o) :
    Sender s' written closed (sent ++ os) := by
  refine ⟨hfit, fun hl => absurd hl hst, ?_, ?_⟩ <;> rw [hiss]
  · exact fun _ => hs
  · exact forall_mem_append.mpr ⟨h.carries, hos⟩

/-- A change of a listening socket that keeps listening. -/
theorem Sender.listens (h : Sender s written closed sent) (hst : s.state = .listen) (hfit : s'.Fit)
    (hst' : s'.state = .listen) (hmac : s'.peerMac = s.peerMac) (hos : ∀ o ∈ os, Refuses o) :
    Sender s' written closed (sent ++ os) := by
  obtain ⟨hsent, hw, hz⟩ := h.listening hst
  have hall : ∀ o ∈ sent ++ os, Refuses o := forall_mem_append.mpr ⟨hsent, hos⟩
  exact ⟨hfit, fun _ => ⟨hall, hw, hmac.trans hz⟩, fun hl => absurd hst' hl,
    fun o ho => (hall o ho).carries _⟩

theorem Opens.fresh {me peer : Addr} (h : Opens me peer s sent) :
    s.Fit ∧ s.rx = [] ∧ (s.state = .listen ∨ s.state = .synSent) := by
  cases h with
  | listen => exact ⟨⟨Nat.le_refl 0, Nat.le_refl 0, Nat.zero_le _, Nat.zero_le _⟩, rfl, Or.inl rfl⟩
  | connect s mac now h =>
    obtain ⟨d, -, h⟩ := bind_eq_ok.mp h
    cases h
    exact ⟨⟨Nat.le_refl 0, Nat.le_refl 0, Nat.zero_le _, Nat.zero_le _⟩, rfl, Or.inr rfl⟩

theorem opens_sender {me peer : Addr} (h : Opens me peer s sent) : Sender s [] false sent := by
  have hfit := (Opens.fresh h).1
  cases h with
  | listen => exact ⟨hfit, fun _ => ⟨by simp, rfl, rfl⟩, fun hl => absurd rfl hl, by simp⟩
  | connect s mac now h =>
    obtain ⟨d, -, h⟩ := bind_eq_ok.mp h
    cases h
    refine ⟨hfit, fun hl => (by cases hl), fun _ => ?_, fun o ho => ?_⟩
    · exact .fresh rfl rfl rfl rfl rfl false
    · rw [mem_singleton.mp ho]
      exact .handshake (Or.inl rfl) rfl rfl

/-- The first SYN fixes the stream. -/
theorem Sender.opened (h : Sender s written closed sent) (hst : s.state = .listen) {t : TcpSocket}
    (g : TcpSeg) (hfit : (t.opened g now).Fit) :
    Sender (t.opened g now) written closed
      (sent ++ [(t.opened g now).sendSynAck g.peerMac g.peerIp]) := by
  obtain ⟨hsent, rfl, -⟩ := h.listening hst
  refine ⟨hfit, fun hl => (by cases hl), fun _ => ?_, forall_mem_append.mpr ⟨?_, ?_⟩⟩
  · exact .fresh rfl rfl rfl rfl rfl closed
  · exact fun o ho => (hsent o ho).carries _
  · exact forall_mem_singleton.mpr (.handshake (Or.inr rfl) rfl rfl)

variable {g : TcpSeg}

/-- An open socket stays open, with its initial sequence number. -/
theorem byState_open (hb : TcpSocket.ByState s g now s' os) (hst : s.state ≠ .listen) :
    s'.state ≠ .listen ∧ s'.iss = s.iss := by
  have hbody : ∀ (t : TcpSocket) (ph : Bool), t.state ≠ .listen →
      (t.tookBody g ph).state ≠ .listen := by
    intro t ph ht
    rcases t.tookBody_state_cases g ph with hs | ⟨-, -, hs⟩
    · rw [hs]
      exact ht
    · rw [hs]
      simp
  cases hb with
  | stray h | opened h => exact absurd h hst
  | silent | pending | reopened => exact ⟨hst, rfl⟩
  | answered =>
    have hans : (s.answered g).state ≠ .listen := by
      obtain ⟨_, _, _, _, st, he, h⟩ := s.answered_eq g
      rw [he]
      rcases h with rfl | rfl
      · exact hst
      · simp
    exact ⟨hbody _ _ hans,
      ((Stream.sameQueue_answered s g).trans (Stream.sameQueue_tookBody _ g true)).iss⟩
  | completed =>
    exact ⟨hbody _ _ (by simp [TcpSocket.establish]), (Stream.sameQueue_tookBody _ g true).iss⟩
  | flowing => exact ⟨hbody _ _ hst, (Stream.sameQueue_tookBody _ g false).iss⟩

theorem Sender.segment (h : Sender s written closed sent) (hseg : TcpSocket.Segment s g now s' os) :
    Sender s' written closed (sent ++ os) := by
  have hfit := h.fit.segment hseg
  rcases eq_or_ne s.state .listen with hst | hst
  · cases hseg with
    | ignored => exact h.listens hst h.fit hst rfl (by simp)
    | reset => exact h.listens hst hfit hst rfl (by simp)
    | processed hd hr hb =>
      have hlink := TcpSocket.sameLink_ackedBy s g
      have hmac : (s.ackedBy g).peerMac = s.peerMac := by
        have hp := hlink.peer
        simp only [Prod.mk.injEq] at hp
        exact hp.2.2
      have hst' := hlink.state.trans hst
      rcases hb.of_listen hst' with ⟨-, rfl, rfl⟩ | ⟨-, rfl, rfl⟩
      · exact h.listens hst hfit hst' hmac (by simp)
      · exact h.opened hst g hfit
  · cases hseg with
    | ignored => exact h.open h.fit hst rfl (h.sends hst) (by simp)
    | reset =>
      exact h.open hfit hst rfl ((h.sends hst).same ⟨rfl, rfl, rfl, rfl, rfl⟩) (by simp)
    | processed hd hr hb =>
      have hlink := TcpSocket.sameLink_ackedBy s g
      have hst' : (s.ackedBy g).state ≠ .listen := by
        rw [hlink.state]
        exact hst
      obtain ⟨hnot, hiss⟩ := byState_open hb hst'
      obtain ⟨hs, hos⟩ := Stream.byState_same (σ := ⟨s.iss, written, closed⟩) hst' hlink.iss hb
      exact h.open hfit hnot (hiss.trans hlink.iss) (((h.sends hst).ackedBy h.fit g).same hs.toSameSend) hos

theorem Sender.arrive (h : Sender s written closed sent) (hr : s.arrive g now = .ok (s', os)) :
    Sender s' written closed (sent ++ os) := by
  unfold TcpSocket.arrive at hr
  split at hr
  · cases hr
    have hos : ∀ o ∈ (if g.syn then [NetStack.refusal s.localPort g] else []), Refuses o := by
      intro o ho
      split at ho
      · rw [mem_singleton.mp ho]
        exact ⟨rfl, rfl⟩
      · cases ho
    rcases eq_or_ne s.state .listen with hst | hst
    · exact h.listens hst h.fit hst rfl hos
    · exact h.open h.fit hst rfl (h.sends hst) fun o ho => (hos o ho).carries _
  · exact h.segment (TcpSocket.rxSegment_segment h.fit hr)

/-- A socket that has not learned its peer does not send. -/
theorem poll_unlearned (hmac : s.peerMac = macZero) (hr : s.poll now = .ok (s', os)) :
    s' = s ∧ os = [] := by
  unfold TcpSocket.poll at hr
  split at hr
  · cases hr
    exact ⟨rfl, rfl⟩
  · cases hr
    exact ⟨rfl, rfl⟩

theorem takeNotify_same (s : TcpSocket) : Stream.SameSend s s.takeNotify := by
  obtain ⟨_, he⟩ := s.takeNotify_eq
  rw [he]
  exact ⟨rfl, rfl, rfl, rfl, rfl⟩

theorem Sender.close (h : Sender s written closed sent) : Sender s.appClose written true sent := by
  refine ⟨⟨h.fit.inflight, h.fit.sent, h.fit.out, h.fit.rx⟩, h.listening, fun hl => ?_,
    fun o ho => (h.carries o ho).close⟩
  have hs := h.sends hl
  exact ⟨rfl, hs.queue, hs.nxt, fun _ => rfl, fun hf => ⟨rfl, (hs.fin hf).2⟩⟩

theorem Sender.write (h : Sender s written false sent) (data : Bytes) :
    Sender (s.appWrite data).1 (written ++ Stream.accepted s data) false sent := by
  rcases eq_or_ne s.state .listen with hst | hst
  · -- a listening socket accepts nothing
    have hno : s.appWrite data = (s, false) := by
      rcases s.appWrite_cases data with he | ⟨hopen, -⟩
      · exact he
      · rcases hopen with h' | h' <;> cases hst.symm.trans h'
    rw [Stream.accepted, hno]
    change Sender s (written ++ []) false sent
    rw [append_nil]
    exact h
  · have hl := @TcpSocket.run_local s _ (.write data) [] rfl rfl
    refine ⟨h.fit.appWrite data, fun hc => absurd (hl.state.symm.trans hc) hst, fun _ => ?_,
      fun o ho => ?_⟩
    · rw [hl.iss]
      exact (h.sends hst).write rfl data
    · rw [hl.iss]
      exact (h.carries o ho).push rfl _

variable {op : SockOp}

/-- What the application and the timer do at the sender. -/
theorem Sender.local (h : Sender s written closed sent) (hin : op.inbound = false)
    (hopen : (∃ data, op = .write data) → closed = false) (hr : s.run op = .ok (s', os)) :
    Sender s' (written ++ op.writes s) (closed || op.isClose) (sent ++ os) := by
  have hfit : s'.Fit := h.fit.does ⟨os, hr⟩
  have hl := TcpSocket.run_local hin hr
  have hmac : s'.peerMac = s.peerMac := by
    have hends := hl.ends
    simp only [Prod.mk.injEq] at hends
    exact hends.2.2.2
  -- what writes nothing and does not close
  have hkeep : ∀ {os'}, (s.state ≠ .listen → Stream.Sends ⟨s.iss, written, closed⟩ s' ∧
      ∀ o ∈ os', Stream.Carries ⟨s.iss, written, closed⟩ o) → (s.state = .listen → os' = []) →
      Sender s' (written ++ []) (closed || false) (sent ++ os') := by
    intro os' hs hnone
    rw [Bool.or_false, append_nil]
    rcases eq_or_ne s.state .listen with hst | hst
    · rw [hnone hst]
      exact h.listens hst hfit (hl.state.trans hst) hmac (by simp)
    · exact h.open hfit (fun hc => hst (hl.state.symm.trans hc)) hl.iss (hs hst).1 (hs hst).2
  cases op with
  | segment g now => cases hin
  | write data =>
    cases hr
    obtain rfl := hopen ⟨data, rfl⟩
    rw [append_nil]
    exact h.write data
  | close =>
    cases hr
    change Sender s.appClose (written ++ []) (closed || true) (sent ++ [])
    rw [Bool.or_true, append_nil, append_nil]
    exact h.close
  | read n =>
    cases hr
    exact hkeep (fun hst => ⟨(h.sends hst).same ⟨rfl, rfl, rfl, rfl, rfl⟩, by simp⟩) fun _ => rfl
  | takeNotify =>
    cases hr
    exact hkeep (fun hst => ⟨(h.sends hst).same (takeNotify_same s), by simp⟩) fun _ => rfl
  | poll now =>
    exact hkeep (fun hst => (h.sends hst).polls h.fit (TcpSocket.poll_ok hr))
      fun hst => (poll_unlearned (h.listening hst).2.2 hr).2

/-- No operation takes an open socket back to `Listen` or changes its initial sequence number. -/
theorem run_open (op : SockOp) (hfit : s.Fit) (hst : s.state ≠ .listen)
    (hr : s.run op = .ok (s', os)) : s'.state ≠ .listen ∧ s'.iss = s.iss := by
  cases op with
  | segment g now =>
    have hseg := TcpSocket.rxSegment_segment hfit hr
    cases hseg with
    | ignored | reset => exact ⟨hst, rfl⟩
    | processed _ _ hb =>
      have hlink := TcpSocket.sameLink_ackedBy s g
      rw [← hlink.state] at hst
      obtain ⟨hnot, hiss⟩ := byState_open hb hst
      exact ⟨hnot, hiss.trans hlink.iss⟩
  | write | read | close | takeNotify | poll =>
    have hl := TcpSocket.run_local rfl hr
    exact ⟨fun hc => hst (hl.state.symm.trans hc), hl.iss⟩

/-! ## The receiver's half -/

/-- The receiver; `known` says that the sender has left `Listen`. -/
structure Receiver (σ : Stream) (known : Prop) (s : TcpSocket) (got : Bytes) : Prop where
  early : s.state ≠ .established → s.state ≠ .closeWait → got = []
  follows : s.state ≠ .listen → s.state ≠ .synSent → known ∧ σ.Follows s.rcvNxt got

variable {σ : Stream} {known : Prop} {got : Bytes}

/-- A change that leaves the receiving half alone. -/
theorem Receiver.same (h : Receiver σ known s got) (hst : s'.state = s.state)
    (hnxt : s'.rcvNxt = s.rcvNxt) : Receiver σ known s' got := by
  refine ⟨?_, ?_⟩
  · rw [hst]
    exact h.early
  · rw [hst, hnxt]
    exact h.follows

/-- A receiver that knows the stream. -/
theorem Receiver.flowing (hk : known) (hf : σ.Follows s.rcvNxt got)
    (hst : s.state = .established ∨ s.state = .closeWait) : Receiver σ known s got :=
  ⟨fun h h' => (hst.elim h h').elim, fun _ _ => ⟨hk, hf⟩⟩

/-- A SYN has fixed the stream, and nothing has come yet. -/
theorem follows_syn (hseq : o.seq = σ.iss) : σ.Follows (o.seq + 1) [] := by
  refine ⟨List.nil_prefix, Or.inl ?_⟩
  rw [hseq]
  exact σ.seqAt_zero

variable {mac : Mac}

theorem Receiver.byState (h : Receiver σ known s got) (hlen : σ.written.length < 2 ^ 31)
    (hrx : s.rx = []) (hk : known) (hc : σ.Carries o) {ip : Ip4}
    (hb : TcpSocket.ByState s (o.seen ip mac) now s' os) : Receiver σ known s' (got ++ s'.rx) := by
  cases hb with
  | stray hst =>
    change Receiver σ known s.close (got ++ s.rx)
    rw [hrx, append_nil]
    exact h.same rfl rfl
  | silent hst | pending hst =>
    rw [hrx, append_nil]
    exact h
  | opened hst hsyn =>
    have hgot : got = [] := h.early (by simp [hst]) (by simp [hst])
    obtain ⟨hseq, -, -⟩ := hc.seen_syn hsyn
    change Receiver σ known _ (got ++ [])
    rw [hgot]
    exact ⟨fun _ _ => rfl, fun _ _ => ⟨hk, follows_syn hseq⟩⟩
  | reopened hst hsyn =>
    have hgot : got = [] := h.early (by simp [hst]) (by simp [hst])
    obtain ⟨hseq, -, -⟩ := hc.seen_syn hsyn
    change Receiver σ known _ (got ++ s.rx)
    rw [hgot, hrx]
    exact ⟨fun _ _ => rfl, fun _ _ => ⟨hk, follows_syn hseq⟩⟩
  | answered hst hsyn =>
    have hgot : got = [] := h.early (by simp [hst]) (by simp [hst])
    obtain ⟨hseq, hp, hf⟩ := hc.seen_syn hsyn
    have hrx' : (s.answered (o.seen ip mac)).rx = [] :=
      (TcpSocket.sameBufs_answered s _).rx.trans hrx
    have hnxt : (s.answered (o.seen ip mac)).rcvNxt = o.seq + 1 := by
      have hsyn : (s.rxSynack (o.seen ip mac)).1.rcvNxt = o.seq + 1 := by
        unfold TcpSocket.rxSynack
        split <;> rfl
      unfold TcpSocket.answered
      split <;> exact hsyn
    -- a SYN brings neither payload nor FIN
    rw [TcpSocket.tookBody, TcpSocket.tookData, if_neg fun hc => hc.1 hp, TcpSocket.tookFin_of_not_fin _ hf, hrx', hgot,
      append_nil]
    refine ⟨fun _ _ => rfl, fun _ _ => ⟨hk, ?_⟩⟩
    rw [hnxt]
    exact follows_syn hseq
  | completed hst hsyn hack =>
    have hfol := (h.follows (by simp [hst]) (by simp [hst])).2
    have hbody := Stream.Follows.tookBody (s := s.establish) hfol ip mac hlen hc hrx true
    exact .flowing hk hbody (TcpSocket.tookBody_state (Or.inl rfl) _ true)
  | flowing hst =>
    have hne : s.state ≠ .listen ∧ s.state ≠ .synSent := by
      rcases hst with h' | h' <;> simp [h']
    have hfol := (h.follows hne.1 hne.2).2
    exact .flowing hk (hfol.tookBody ip mac hlen hc hrx false) (TcpSocket.tookBody_state hst _ false)

/-- A segment of the sender arrives; before the sender is known it can only be a refusal. -/
theorem Receiver.arrive (h : Receiver σ known s got) (hlen : σ.written.length < 2 ^ 31)
    (hfit : s.Fit) (hrx : s.rx = []) (hc : σ.Carries o) (hk : known ∨ Refuses o) {ip : Ip4}
    (hr : s.arrive (o.seen ip mac) now = .ok (s', os)) : Receiver σ known s' (got ++ s'.rx) := by
  have hstay : Receiver σ known s (got ++ s.rx) := by
    rw [hrx, append_nil]
    exact h
  unfold TcpSocket.arrive at hr
  split at hr
  · cases hr
    exact hstay
  · have hseg := TcpSocket.rxSegment_segment hfit hr
    cases hseg with
    | ignored => exact hstay
    | reset => exact hstay.same rfl rfl
    | processed hd hrst hb =>
      have hlink := TcpSocket.sameLink_ackedBy s (o.seen ip mac)
      rcases hk with hk | href
      · exact (h.same hlink.state hlink.rcvNxt).byState hlen (hlink.rx.trans hrx) hk hc hb
      · have hflag : (o.seen ip mac).rst = true := by
          change (o.flags &&& flagRst != 0) = true
          rw [href.1]
          decide
        rw [hflag] at hrst
        cases hrst

/-! ## Both together -/

structure Inv (c : Link) : Prop where
  sender : Sender c.a c.written c.closed c.ab
  fit : c.b.Fit
  drained : c.b.rx = []
  receiver : Receiver c.stream (c.a.state ≠ .listen) c.b c.read

variable {c c' : Link} {pa pb : Addr}

/-- A change of the sender that does not move its stream back. -/
theorem Receiver.sender_moves {σ' : Stream} {known' : Prop} (h : Receiver σ known s got)
    (hmove : known → known' ∧ ∀ nxt, σ.Follows nxt got → σ'.Follows nxt got) :
    Receiver σ' known' s got := by
  refine ⟨h.early, fun h₁ h₂ => ?_⟩
  obtain ⟨hk, hf⟩ := h.follows h₁ h₂
  obtain ⟨hk', hmono⟩ := hmove hk
  exact ⟨hk', hmono _ hf⟩

theorem Inv.toA (hi : c.Inv) (hs : Step pa pb c (.toA o mac now) c') : c'.Inv := by
  obtain ⟨-, s, os, hr, rfl⟩ := hs
  refine ⟨hi.sender.arrive hr, hi.fit, hi.drained, hi.receiver.sender_moves fun hk => ?_⟩
  obtain ⟨hst, hiss⟩ : s.state ≠ .listen ∧ s.iss = c.a.iss := by
    unfold TcpSocket.arrive at hr
    split at hr
    · cases hr
      exact ⟨hk, rfl⟩
    · exact run_open (.segment _ now) hi.sender.fit hk hr
  refine ⟨hst, fun nxt hf => ?_⟩
  unfold stream
  rw [hiss]
  exact hf

theorem Inv.atA (hi : c.Inv) (hw : WritesOpen c (.atA op)) (hs : Step pa pb c (.atA op) c') :
    c'.Inv := by
  obtain ⟨hin, s, os, hr, rfl⟩ := hs
  have hopen : (∃ data, op = .write data) → c.closed = false := by
    rintro ⟨data, rfl⟩
    exact hw
  refine ⟨hi.sender.local hin hopen hr, hi.fit, hi.drained, hi.receiver.sender_moves fun hk => ?_⟩
  obtain ⟨hst, hiss⟩ := run_open op hi.sender.fit hk hr
  refine ⟨hst, fun nxt hf => ?_⟩
  unfold stream
  rw [hiss]
  cases op with
  | segment g now => cases hin
  | write data =>
    change Stream.Follows ⟨_, _, c.closed || false⟩ nxt c.read
    rw [Bool.or_false]
    refine ⟨hf.front.trans (prefix_append _ _), hf.nxt.imp id fun hc => ?_⟩
    cases (hopen ⟨data, rfl⟩).symm.trans hc.1
  | close =>
    change Stream.Follows ⟨_, c.written ++ [], c.closed || true⟩ nxt c.read
    rw [append_nil, Bool.or_true]
    exact hf.close
  | read n | takeNotify | poll now =>
    change Stream.Follows ⟨_, c.written ++ [], c.closed || false⟩ nxt c.read
    rw [append_nil, Bool.or_false]
    exact hf

theorem Inv.toB (hi : c.Inv) (hlen : c.written.length < 2 ^ 31)
    (hs : Step pa pb c (.toB o mac now) c') : c'.Inv := by
  obtain ⟨ho, s, os, hr, rfl⟩ := hs
  have hfit : s.Fit := by
    unfold TcpSocket.arrive at hr
    split at hr
    · cases hr
      exact hi.fit
    · exact hi.fit.segment (TcpSocket.rxSegment_segment hi.fit hr)
  have hk : c.a.state ≠ .listen ∨ Refuses o := by
    rcases eq_or_ne c.a.state .listen with hst | hst
    · exact Or.inr ((hi.sender.listening hst).1 o ho)
    · exact Or.inl hst
  have hrec := hi.receiver.arrive hlen hi.fit hi.drained (hi.sender.carries o ho) hk hr
  refine ⟨hi.sender, hfit.appRead rxBuf, ?_, ?_⟩
  · exact drop_eq_nil_of_le hfit.rx
  · change Receiver _ _ _ (c.read ++ s.rx.take rxBuf)
    rw [take_of_length_le hfit.rx]
    exact hrec.same rfl rfl

theorem Inv.atB (hi : c.Inv) (hs : Step pa pb c (.atB op) c') : c'.Inv := by
  obtain ⟨hin, s, os, hr, rfl⟩ := hs
  -- the application and the timer leave `rcv_nxt` alone
  have hl := TcpSocket.run_local hin hr
  obtain ⟨hreads, hrx⟩ := append_eq_nil_iff.mp (hl.rx.trans hi.drained)
  refine ⟨hi.sender, hi.fit.does ⟨os, hr⟩, hrx, ?_⟩
  change Receiver c.stream _ s (c.read ++ op.reads c.b)
  rw [hreads, append_nil]
  exact hi.receiver.same hl.state hl.rcvNxt

variable {e : LinkOp}

/-- The stream only grows. -/
theorem step_written (hs : Step pa pb c e c') : c.written.length ≤ c'.written.length := by
  cases e with
  | toA | toB | atB =>
    obtain ⟨-, s, os, -, rfl⟩ := hs
    exact Nat.le_refl _
  | atA op =>
    obtain ⟨-, s, os, -, rfl⟩ := hs
    change _ ≤ (c.written ++ op.writes c.a).length
    rw [length_append]
    exact Nat.le_add_right _ _

theorem Inv.step (hi : c.Inv) (hlen : c.written.length < 2 ^ 31) (hw : WritesOpen c e)
    (hs : Step pa pb c e c') : c'.Inv := by
  cases e with
  | toA o mac now => exact hi.toA hs
  | toB o mac now => exact hi.toB hlen hs
  | atA op => exact hi.atA hw hs
  | atB op => exact hi.atB hs

theorem Init.inv (h : Init pa pb c) : c.Inv := by
  obtain ⟨a, b, ab, ba, ha, hb⟩ := h
  obtain ⟨hfit, hrx, hst⟩ := Opens.fresh hb
  exact ⟨opens_sender ha, hfit, hrx, fun _ _ => rfl, fun h₁ h₂ => (hst.elim h₁ h₂).elim⟩

theorem prefix_safe {es : List LinkOp} (h₀ : Init pa pb c)
    (hrun : LTS.Run (LTS.guarded (Step pa pb) WritesOpen) c es c')
    (hlen : c'.written.length < 2 ^ 31) : c'.read <+: c'.written := by
  -- the bound holds all along, because the stream only grows
  have hinv : c'.written.length < 2 ^ 31 → c'.Inv := by
    refine hrun.invariant_guarded (I := fun c => c.written.length < 2 ^ 31 → c.Inv) ?_
      fun _ => h₀.inv
    intro c e c' hi hw hs hlt
    have hlt' := Nat.lt_of_le_of_lt (step_written hs) hlt
    exact (hi hlt').step hlt' hw hs
  have hrec := (hinv hlen).receiver
  rcases Classical.em (c'.b.state = .listen ∨ c'.b.state = .synSent) with hst | hst
  · have hnil : c'.read = [] := hrec.early (by rcases hst with h | h <;> simp [h])
      (by rcases hst with h | h <;> simp [h])
    rw [hnil]
    exact nil_prefix
  · exact (hrec.follows (fun h => hst (Or.inl h)) fun h => hst (Or.inr h)).2.front

/-! ## A connection that carries three bytes -/

instance (c : Link) (e : LinkOp) : Decidable (WritesOpen c e) :=
  match e with
  | .atA (.write _) => inferInstanceAs (Decidable (c.closed = false))
  | .atA (.segment _ _) | .atA (.read _) | .atA .close | .atA .takeNotify | .atA (.poll _)
  | .toA _ _ _ | .toB _ _ _ | .atB _ => inferInstanceAs (Decidable True)

/-- The step as a function; `none` where it is not possible. -/
def next (pa pb : Addr) (c : Link) : LinkOp → Option Link
  | .toA o mac now =>
    if o ∈ c.ba then
      match c.a.arrive (o.seen pb.ip mac) now with
      | .ok (s, os) => some { c with a := s, ab := c.ab ++ os }
      | .error _ => none
    else none
  | .toB o mac now =>
    if o ∈ c.ab then
      match c.b.arrive (o.seen pa.ip mac) now with
      | .ok (s, os) => some { c with
          b := (s.appRead rxBuf).1, ba := c.ba ++ os, read := c.read ++ (s.appRead rxBuf).2 }
      | .error _ => none
    else none
  | .atA op =>
    if op.inbound = false ∧ WritesOpen c (.atA op) then
      match c.a.run op with
      | .ok (s, os) => some { c with
          a := s, ab := c.ab ++ os, written := c.written ++ op.writes c.a
          closed := c.closed || op.isClose }
      | .error _ => none
    else none
  | .atB op =>
    if op.inbound = false then
      match c.b.run op with
      | .ok (s, os) => some { c with b := s, ba := c.ba ++ os, read := c.read ++ op.reads c.b }
      | .error _ => none
    else none

theorem next_step (h : next pa pb c e = some c') : LTS.guarded (Step pa pb) WritesOpen c e c' := by
  cases e with
  | toA | toB | atB =>
    obtain ⟨ho, h⟩ := Option.ite_none_right_eq_some.mp h
    split at h
    · rename_i s os hr
      cases h
      exact ⟨trivial, ho, s, os, hr, rfl⟩
    · cases h
  | atA op =>
    obtain ⟨⟨ho, hopen⟩, h⟩ := Option.ite_none_right_eq_some.mp h
    split at h
    · rename_i s os hr
      cases h
      exact ⟨hopen, ho, s, os, hr, rfl⟩
    · cases h

/-- Port 5 of one machine. -/
def left : Addr := ⟨.replicate 4 10, 5⟩

/-- Port 7 of another. -/
def right : Addr := ⟨.replicate 4 20, 7⟩

/-- A segment from the left to the right. -/
def rightward (seq ack : UInt32) (flags : UInt8) (payload : Bytes) : TcpOut :=
  ⟨.replicate 6 2, right.ip, 5, 7, seq, ack, flags, window, payload⟩

/-- A segment from the right to the left. -/
def leftward (seq ack : UInt32) (flags : UInt8) : TcpOut :=
  ⟨.replicate 6 1, left.ip, 7, 5, seq, ack, flags, window, []⟩

/-- The handshake, three bytes that arrive twice, and the SYN once more in between. -/
def threeBytes : List LinkOp :=
  [.toB (rightward 0x50005 0 flagSyn []) (.replicate 6 1) 0,
    .toA (leftward 0x70007 0x50006 (flagSyn ||| flagAck)) (.replicate 6 2) 0,
    .toB (rightward 0x50006 0x70008 flagAck []) (.replicate 6 1) 0,
    .atA (.write [1, 2, 3]), .atA (.poll 0),
    .toB (rightward 0x50006 0x70008 (flagAck ||| flagPsh) [1, 2, 3]) (.replicate 6 1) 0,
    .toB (rightward 0x50005 0 flagSyn []) (.replicate 6 1) 0,
    .toB (rightward 0x50006 0x70008 (flagAck ||| flagPsh) [1, 2, 3]) (.replicate 6 1) 0]

theorem prefix_safe_threeBytes : ∃ (c c' : Link), Init left right c ∧
    LTS.Run (LTS.guarded (Step left right) WritesOpen) c threeBytes c' ∧
    c'.written = [1, 2, 3] ∧ c'.read = [1, 2, 3] ∧ c'.read <+: c'.written := by
  cases ha : TcpSocket.connect right.ip right.port left.port 0 with
  | error e => cases ha
  | ok s =>
    have hrun : (LTS.exec (next left right) ⟨{ s with peerMac := .replicate 6 2 },
        .listen 7, [s.sendSyn (.replicate 6 2) right.ip], [], [], false, []⟩ threeBytes).any
        (fun c => c.written == [1, 2, 3] && c.read == [1, 2, 3]) = true := by
      obtain rfl := Except.ok.inj ha
      decide +kernel
    obtain ⟨c', hc', ht⟩ := LTS.exec_any _ _ _ _ hrun
    simp only [Bool.and_eq_true, beq_iff_eq] at ht
    have h₀ := Init.mk _ _ _ _ (.connect s (.replicate 6 2) 0 ha)
      (.listen : Opens right left _ _)
    have hr := LTS.Run.of_exec (fun _ _ _ => next_step) hc'
    exact ⟨_, c', h₀, hr, ht.1, ht.2, prefix_safe h₀ hr (by rw [ht.1]; decide)⟩

end Link

end Net

end Tanix
