/-
# `Tanix.Net.Table` — what an operation does to the socket table

Everything the server can do with a stack comes down to one of seven things done to the
table of TCP sockets (`TableStep`):

    same                 the table is not touched
    listen, connect      a free slot is filled
    app                  the application acts on one socket
    free                 a slot is emptied
    segment              one segment, to the socket that `tcp_find` names
    poll                 every socket is polled once

`run_table` reads this off the code once.  The invariants of the table follow from it
slot by slot; the first is that every socket's buffers fit (`Fits`).
-/
import Tanix.Net.Socket
import Tanix.Net.Build
import Tanix.Net.Stack

namespace Tanix

open List

namespace Net

abbrev SockTable := Fin maxSockets → Option TcpSocket

/-- The slot that `tcp_listen` and `tcp_connect` fill. -/
def NetStack.firstFree (st : NetStack) : Option (Fin maxSockets) :=
  (List.finRange maxSockets).find? fun i => (st.tcp i).isNone

/-- One slot, polled. -/
inductive SlotPolled (now : Nat) : Option TcpSocket → Option TcpSocket → Prop
  | empty : SlotPolled now none none
  | polled {s s' : TcpSocket} (h : s.Does (.poll now) s') : SlotPolled now (some s) (some s')

inductive TableStep (st : NetStack) : Op → SockTable → Prop
  | same {op : Op} : TableStep st op st.tcp
  | listen {port : UInt16} {i : Fin maxSockets} (hfree : st.firstFree = some i)
      (hport : ∀ j s, st.tcp j = some s → s.localPort = port → s.state = .listen) :
      TableStep st (.tcpListen port) (Function.update st.tcp i (some (TcpSocket.listen port)))
  | connect {dst : Ip4} {port : UInt16} {now : Nat} {i : Fin maxSockets} {s : TcpSocket} {mac : Mac}
      (hfree : st.firstFree = some i)
      (hs : TcpSocket.connect dst port st.ephemeral now = .ok s) :
      TableStep st (.tcpConnect dst port now)
        (Function.update st.tcp i (some { s with peerMac := mac }))
  | app {op : Op} {op' : SockOp} {i : Fin maxSockets} {s s' : TcpSocket} (hs : st.tcp i = some s)
      (hin : op'.inbound = false) (hd : s.Does op' s') :
      TableStep st op (Function.update st.tcp i (some s'))
  | free {i : Fin maxSockets} : TableStep st (.tcpFree i) (Function.update st.tcp i none)
  | segment {frame : Bytes} {now : Nat} {dport : UInt16} {g : TcpSeg} {i : Fin maxSockets}
      {s s' : TcpSocket} (hfind : st.tcpFind dport g.peerIp g.peerPort = some i)
      (hs : st.tcp i = some s) (hd : s.Does (.segment g now) s') :
      TableStep st (.onFrame frame now) (Function.update st.tcp i (some s'))
  | poll {now : Nat} {tcp' : SockTable} (h : ∀ i, SlotPolled now (st.tcp i) (tcp' i)) :
      TableStep st (.poll now) tcp'

namespace NetStack

variable {st st' : NetStack} {q q' : OutQueue} {w w' : Wired} {now : Nat}

/-! ## What leaves the table alone -/

variable (st)

theorem cacheAdd_tcp (ip : Ip4) (mac : Mac) : (st.cacheAdd ip mac).tcp = st.tcp := by
  unfold cacheAdd
  split
  · rfl
  split
  · rfl
  split <;> rfl

theorem udpBind_tcp (port : UInt16) : (st.udpBind port).1.tcp = st.tcp := by
  unfold udpBind
  split
  · rfl
  split <;> rfl

variable {dst : Ip4}

theorem icmpEchoSend_tcp (dst : Ip4) (q : OutQueue) :
    (st.icmpEchoSend dst q).Ensures fun r => r.1.1.tcp = st.tcp := by
  refine .after fun m => ?_
  cases m with
  | none => exact .ok rfl
  | some mac => exact .after fun sent => .ite (.ok rfl) (.ok rfl)

variable {i : Fin maxSockets}

theorem udpSend_tcp (i : Fin maxSockets) (dst : Ip4) (port : UInt16) (payload : Bytes)
    (q : OutQueue) : (st.udpSend i dst port payload q).Ensures fun r => r.1.1.tcp = st.tcp := by
  unfold udpSend
  split
  · exact .ok rfl
  · refine .after fun m => ?_
    cases m with
    | none => exact .ok rfl
    | some mac => exact .after fun sent => .ok rfl

theorem handleArp_tcp (frame : Bytes) (q : OutQueue) :
    (st.handleArp frame q).Ensures fun w => w.1.tcp = st.tcp := by
  refine .after fun m => ?_
  cases m with
  | none => exact .ok rfl
  | some m =>
    refine .ite (.ok rfl) (.after fun hw => .after fun proto => .after fun hwLen => ?_)
    refine .after fun protoLen => .ite (.ok rfl) (.after fun senderMac => .after fun senderIp => ?_)
    have hcache := cacheAdd_tcp st senderIp senderMac
    refine .after fun targetIp => .after fun op => .ite (.after fun sent => .ok hcache) ?_
    exact .ite (.ok hcache) (.ok hcache)

theorem handleIcmp_tcp (seg : Bytes) (mac : Mac) (ip : Ip4) (q : OutQueue) :
    (st.handleIcmp seg mac ip q).Ensures fun w => w.1.tcp = st.tcp := by
  refine .ite (.ok rfl) (.after fun kind => .ite (.after fun id => .after fun seq => .ok rfl) ?_)
  refine .ite (.ite (.ok rfl) (.after fun idSeq => .after fun payload => ?_)) (.ok rfl)
  exact .after fun sent => .ok rfl

theorem handleUdp_tcp (seg : Bytes) (ip : Ip4) :
    (st.handleUdp seg ip).Ensures fun st' => st'.tcp = st.tcp := by
  refine .ite (.ok rfl) (.after fun sport => .after fun dport => .after fun len => ?_)
  exact .after fun data => .ok rfl

/-! ## Segments -/

variable {st}

theorem tcpFind_congr (h : st'.tcp = st.tcp) (dport : UInt16) (ip : Ip4) (sport : UInt16) :
    st'.tcpFind dport ip sport = st.tcpFind dport ip sport := by
  unfold tcpFind
  rw [h]

/-- A delivered segment goes to the socket that `tcp_find` names, and to no other. -/
theorem deliverTcp_tcp {dport : UInt16} {g : TcpSeg} (h : st.deliverTcp dport g now q = .ok (st', q')) :
    (st.tcpFind dport g.peerIp g.peerPort = none ∧ st'.tcp = st.tcp) ∨
      ∃ i s s', st.tcpFind dport g.peerIp g.peerPort = some i ∧ st.tcp i = some s ∧
        s.Does (.segment g now) s' ∧ st'.tcp = Function.update st.tcp i (some s') := by
  unfold deliverTcp at h
  split at h
  · rename_i hfind
    refine Or.inl ⟨hfind, ?_⟩
    split at h
    · obtain ⟨ctx, -, h⟩ := bind_eq_ok.mp h
      cases h
      rfl
    · cases h
      rfl
  · rename_i i hfind
    have hany := find?_some hfind
    cases hs : st.tcp i with
    | none =>
      rw [hs] at hany
      cases hany
    | some s =>
      simp only [hs] at h
      obtain ⟨⟨s', os⟩, hrx, h⟩ := bind_eq_ok.mp h
      obtain ⟨ctx, -, h⟩ := bind_eq_ok.mp h
      cases h
      exact Or.inr ⟨i, s, s', hfind, hs, ⟨os, hrx⟩, rfl⟩

/-- A received frame leaves the table alone, or delivers one segment. -/
theorem onFrame_table (st : NetStack) (frame : Bytes) (q : OutQueue) :
    (st.onFrame frame now q).Ensures fun w => TableStep st (.onFrame frame now) w.1.tcp := by
  have hsame {w : Wired} (he : w.1.tcp = st.tcp) : TableStep st (.onFrame frame now) w.1.tcp := by
    rw [he]
    exact .same
  refine .after fun m => ?_
  cases m with
  | none => exact .ok .same
  | some m =>
    refine .ite (.ok .same) (.ite (fun w h => hsame (handleArp_tcp st frame q h)) ?_)
    refine .ite (.after fun m => ?_) (.ok .same)
    cases m with
    | none => exact .ok .same
    | some hdr =>
      have hcache := cacheAdd_tcp st hdr.src m.2.1
      refine .ite (.ok .same) (.after fun payload => .ite ?_ (.ite ?_ (.ite ?_ (.ok (hsame hcache)))))
      · exact fun w h => hsame ((handleIcmp_tcp _ _ _ _ _ h).trans hcache)
      · exact (handleUdp_tcp _ _ _).bind fun st₁ h₁ => .ok (hsame (h₁.trans hcache))
      · refine .ite (.ok (hsame hcache)) (.after fun sport => .after fun dport => ?_)
        refine .after fun seq => .after fun ack => .after fun offFlags => .after fun flags => ?_
        refine .after fun wnd => .ite (.ok (hsame hcache)) (.after fun data w h => ?_)
        rcases deliverTcp_tcp h with ⟨-, he⟩ | ⟨i, s, s', hfind, hs, hd, he⟩
        · exact hsame (he.trans hcache)
        · rw [hcache] at hs he
          rw [tcpFind_congr hcache] at hfind
          rw [he]
          exact .segment hfind hs hd

/-! ## Polls -/

theorem pollOne_slot (h : pollOne now w i = .ok w') :
    SlotPolled now (w.1.tcp i) (w'.1.tcp i) ∧ ∀ j, j ≠ i → w'.1.tcp j = w.1.tcp j := by
  unfold pollOne at h
  split at h
  · rename_i hs
    cases h
    rw [hs]
    exact ⟨.empty, fun _ _ => rfl⟩
  · rename_i s hs
    obtain ⟨⟨s', os⟩, hp, h⟩ := bind_eq_ok.mp h
    obtain ⟨ctx, -, h⟩ := bind_eq_ok.mp h
    cases h
    rw [hs]
    refine ⟨?_, fun j hj => Function.update_of_ne hj _ _⟩
    change SlotPolled now (some s) (Function.update w.1.tcp i (some s') i)
    rw [Function.update_self]
    exact .polled ⟨os, hp⟩

/-- The loop comes to every slot once. -/
theorem poll_table (h : st.poll now q = .ok (st', q')) : TableStep st (.poll now) st'.tcp := by
  have hloop := foldlM_done
    (I := fun done w => ∀ i, (i ∈ done → SlotPolled now (st.tcp i) (w.1.tcp i)) ∧
      (i ∉ done → w.1.tcp i = st.tcp i))
    (fun done i rest w w' hl hi hw j => by
      obtain ⟨hslot, hother⟩ := pollOne_slot hw
      -- the slot polled now has not been polled before
      have hnew : i ∉ done := by
        have hnd := nodup_finRange maxSockets
        rw [← hl, nodup_append] at hnd
        exact fun hc => hnd.2.2 i hc i mem_cons_self rfl
      rcases eq_or_ne j i with rfl | hne
      · refine ⟨fun _ => ?_, fun hc => absurd (mem_append_right _ mem_cons_self) hc⟩
        rw [← (hi j).2 hnew]
        exact hslot
      · rw [hother j hne]
        refine ⟨fun hj => (hi j).1 ?_, fun hj => (hi j).2 fun hc => hj (mem_append_left _ hc)⟩
        rcases mem_append.mp hj with hj | hj
        · exact hj
        · exact absurd (mem_singleton.mp hj) hne)
    (fun i => ⟨fun hc => absurd hc not_mem_nil, fun _ => rfl⟩) h
  exact .poll fun i => (hloop i).1 (mem_finRange i)

/-! ## Every operation -/

theorem onSocket_table {op : Op} (op' : SockOp) {f : TcpSocket → TcpSocket}
    (hin : op'.inbound = false) (hf : ∀ s : TcpSocket, s.Does op' (f s)) :
    TableStep st op (st.onSocket i f).tcp := by
  unfold onSocket
  cases hs : st.tcp i with
  | none =>
    have hsame : Function.update st.tcp i ((none : Option TcpSocket).map f) = st.tcp := by
      rw [Option.map_none, ← hs, Function.update_eq_self]
    change TableStep st op (Function.update st.tcp i ((none : Option TcpSocket).map f))
    rw [hsame]
    exact .same
  | some s => exact .app hs hin (hf s)

theorem tcpListen_table (port : UInt16) : TableStep st (.tcpListen port) (st.tcpListen port).1.tcp := by
  unfold tcpListen
  split
  · exact .same
  rename_i hno
  split
  · exact .same
  · rename_i i hfree
    refine .listen hfree fun j s hj hp => ?_
    -- the first loop has found nothing
    by_contra hst
    refine hno (List.any_eq_true.mpr ⟨j, mem_finRange j, ?_⟩)
    rw [hj]
    simp [hp, hst]

variable (st)

theorem tcpConnect_table (dst : Ip4) (port : UInt16) (q : OutQueue) :
    (st.tcpConnect dst port now q).Ensures fun r =>
      TableStep st (.tcpConnect dst port now) r.1.1.tcp := by
  refine .after fun m => ?_
  cases m with
  | none => exact .ok .same
  | some mac =>
    simp only
    split
    · exact .ok .same
    · rename_i i hfree
      exact .bind (fun s hs => hs) fun s hs => .after fun ctx => .ok (.connect hfree hs)

theorem run_table {op : Op} (h : NetStack.run w op = .ok w') : TableStep w.1 op w'.1.tcp := by
  cases op with
  | setMac | udpUnread | newQueue | clearQueue =>
    cases h
    exact .same
  | arpProbe =>
    obtain ⟨r, -, rfl⟩ := map_eq_ok h
    exact .same
  | icmpEchoSend dst =>
    obtain ⟨⟨⟨st', q'⟩, b⟩, hr, rfl⟩ := map_eq_ok h
    rw [icmpEchoSend_tcp _ _ _ hr]
    exact .same
  | udpBind port =>
    cases h
    rw [udpBind_tcp]
    exact .same
  | udpOpen =>
    cases h
    change TableStep w.1 _ (NetStack.udpBind _ _).1.tcp
    rw [udpBind_tcp]
    exact .same
  | udpSend i dst port payload =>
    obtain ⟨⟨⟨st', q'⟩, b⟩, hr, rfl⟩ := map_eq_ok h
    rw [udpSend_tcp _ _ _ _ _ _ hr]
    exact .same
  | tcpListen port =>
    cases h
    exact tcpListen_table port
  | tcpConnect dst port now =>
    obtain ⟨⟨⟨st', q'⟩, o⟩, hr, rfl⟩ := map_eq_ok h
    exact tcpConnect_table _ _ _ _ hr
  | tcpWrite i data =>
    cases h
    exact onSocket_table (.write data) rfl fun s => ⟨[], rfl⟩
  | tcpRead i n =>
    cases h
    exact onSocket_table (.read n) rfl fun s => ⟨[], rfl⟩
  | tcpClose i =>
    cases h
    exact onSocket_table .close rfl fun s => ⟨[], rfl⟩
  | tcpTakeEvent i =>
    cases h
    exact onSocket_table .takeNotify rfl fun s => ⟨[], rfl⟩
  | tcpFree i =>
    cases h
    exact .free
  | onFrame frame now => exact onFrame_table _ _ _ h
  | poll now => exact poll_table h

end NetStack

end Net

end Tanix
