/-
# `Tanix.Net.Survive` — which frames the stack survives

`on_frame` takes any bytes the network card has received.  Three parsers look at them, and
each trusts lengths that another has checked.  Two checks are missing, and one sum is not
guarded:

    IPv4   the total length may be less than the header length     `ShortDatagram`
    UDP    the length field may be less than the UDP header        `ShortUdp`
    TCP    a SYN arms a timer 800 ms ahead, past the end of time   `LateSyn`

A frame that is none of these is handled without a panic in every reachable state, and a
frame that is one of them panics in every one (`onFrame_survives_iff`).
-/
import Tanix.Net.Demux

namespace Tanix

namespace Net

/-! ## Reads that succeed -/

section Reads

variable {b : Bytes}

theorem byteAt_gives {i : Nat} (h : i < b.length) : (byteAt b i).Gives fun _ => True :=
  ⟨_, byteAt_ok h, trivial⟩

theorem getU16_gives {i : Nat} (h : i + 1 < b.length) : (getU16 b i).Gives fun _ => True := by
  obtain ⟨v, hv⟩ := getU16_ok h
  exact ⟨v, hv, trivial⟩

theorem fixed_gives {n i : Nat} (h : i + n ≤ b.length) : (fixed n b i).Gives fun _ => True := by
  rw [fixed, dif_pos h]
  exact .pure trivial

end Reads

theorem parseEth_gives (frame : Bytes) :
    (parseEth frame).Gives fun r => r.isSome = true → 14 ≤ frame.length := by
  unfold parseEth
  split
  · exact .pure fun h => by cases h
  rename_i hlen
  refine (fixed_gives (by omega)).bind fun dst _ => ?_
  refine (fixed_gives (by omega)).bind fun src _ => ?_
  refine (getU16_gives (by omega)).bind fun etype _ => ?_
  exact .pure fun _ => by omega

/-- What `parse_ip4` has checked. -/
structure Ip4Hdr.Checked (hdr : Ip4Hdr) (frame : Bytes) : Prop where
  total : 14 + hdr.totalLen ≤ frame.length
  start : hdr.transport ≤ frame.length

theorem parseIp4_gives (frame : Bytes) :
    (parseIp4 frame).Gives fun r => ∀ hdr, r = some hdr → hdr.Checked frame := by
  have hnone : (pure none : Except Fault (Option Ip4Hdr)).Gives fun r =>
      ∀ hdr, r = some hdr → hdr.Checked frame := .pure fun hdr h => by cases h
  unfold parseIp4
  split
  · exact hnone
  rename_i hlen
  refine (byteAt_gives (by omega)).bind fun vihl _ => ?_
  split
  · exact hnone
  refine (getU16_gives (by omega)).bind fun total _ => ?_
  split
  · exact hnone
  rename_i htotal
  simp only
  split
  · exact hnone
  rename_i hihl
  refine (fixed_gives (by omega)).bind fun src _ => ?_
  refine (fixed_gives (by omega)).bind fun dst _ => ?_
  refine (byteAt_gives (by omega)).bind fun proto _ => ?_
  refine .pure fun hdr h => ?_
  cases h
  exact ⟨by simp only; omega, by simp only; omega⟩

namespace NetStack

variable {st : NetStack} {q : OutQueue} {w w' : Wired} {now : Nat}

/-! ## The frames that break the stack -/

/-- The UDP length does not cover the UDP header. -/
def ShortUdp (seg : Bytes) : Prop :=
  8 ≤ seg.length ∧ ∃ len, getU16 seg 4 = .ok len ∧ len.toNat < 8

/-- A SYN, without a reset, for a socket that waits for one or has had one, when no timer can be
armed any more. -/
def LateSyn (st : NetStack) (seg : Bytes) (src : Ip4) (now : Nat) : Prop :=
  20 ≤ seg.length ∧ 2 ^ 64 ≤ now + rtoTicks ∧
    ∃ sport dport off flags, getU16 seg 0 = .ok sport ∧ getU16 seg 2 = .ok dport ∧
      byteAt seg 12 = .ok off ∧ byteAt seg 13 = .ok flags ∧
      20 ≤ off.toNat / 16 * 4 ∧ off.toNat / 16 * 4 ≤ seg.length ∧
      flags &&& flagSyn ≠ 0 ∧ flags &&& flagRst = 0 ∧
      ∃ i s, st.tcpFind dport src sport = some i ∧ st.tcp i = some s ∧
        (s.state = .listen ∨ s.state = .synRcvd)

/-- An IPv4 packet with a lying length, or a SYN at the end of time. -/
def BadPacket (st : NetStack) (frame : Bytes) (hdr : Ip4Hdr) (now : Nat) : Prop :=
  14 + hdr.totalLen < hdr.transport ∨
    ∃ seg, slice frame hdr.transport (14 + hdr.totalLen) = .ok seg ∧
      (hdr.proto = ipprotoUdp ∧ ShortUdp seg ∨ hdr.proto = ipprotoTcp ∧ st.LateSyn seg hdr.src now)

/-- The frame is for this machine, and carries a bad packet for it. -/
def BadFrame (st : NetStack) (frame : Bytes) (now : Nat) : Prop :=
  ∃ dst srcMac hdr, parseEth frame = .ok (some (dst, srcMac, ethertypeIpv4)) ∧
    (dst = st.mac ∨ dst = Vector.replicate 6 0xFF) ∧ parseIp4 frame = .ok (some hdr) ∧
    hdr.dst = st.myIp ∧ st.BadPacket frame hdr now

/-! ## Frames sent -/

theorem emit_gives (ctx : TxCtx) (hq : ctx.q.Sound) (os : List TcpOut) :
    (emit ctx os).Gives fun ctx' => ctx'.q.Sound := by
  refine Except.Gives.foldlM (fun c o _ hc => ?_) hq
  exact .map ((pushTcpFrame_ok c hc o).mono fun r hr => hr.1)

theorem handleArp_gives (hq : q.Sound) (frame : Bytes) :
    (st.handleArp frame q).Gives fun w => w.2.Sound := by
  unfold handleArp
  refine (parseEth_gives frame).bind fun r _ => ?_
  split
  · exact .pure hq
  split
  · exact .pure hq
  rename_i hlen
  refine (getU16_gives (by omega)).bind fun hw _ => ?_
  refine (getU16_gives (by omega)).bind fun proto _ => ?_
  refine (byteAt_gives (by omega)).bind fun hwLen _ => ?_
  refine (byteAt_gives (by omega)).bind fun protoLen _ => ?_
  split
  · exact .pure hq
  refine (fixed_gives (by omega)).bind fun senderMac _ => ?_
  refine (fixed_gives (by omega)).bind fun senderIp _ => ?_
  refine (fixed_gives (by omega)).bind fun targetIp _ => ?_
  refine (getU16_gives (by omega)).bind fun op _ => ?_
  split
  · refine (pushArp_ok hq _ _ _ (Vector.length_toList ..) (Vector.length_toList ..) _).bind fun r hr => ?_
    exact .pure hr
  split <;> exact .pure hq

theorem handleIcmp_gives (hq : q.Sound) (seg : Bytes) (mac : Mac) (ip : Ip4) :
    (st.handleIcmp seg mac ip q).Gives fun w => w.2.Sound := by
  unfold handleIcmp
  split
  · exact .pure hq
  rename_i hlen
  refine (byteAt_gives (by omega)).bind fun kind _ => ?_
  split
  · refine (getU16_gives (by omega)).bind fun id _ => ?_
    refine (getU16_gives (by omega)).bind fun seq _ => ?_
    exact .pure hq
  split
  · unfold icmpReply
    rw [if_neg hlen]
    refine (slice_gives (by omega) (by omega)).bind fun idSeq hid => ?_
    refine (slice_gives (by omega) (by omega)).bind fun payload _ => ?_
    refine (pushIcmp_ok (st.ctx q) hq _ _ ?_ _).bind fun r hr => ?_
    · simp only [List.forall_mem_cons, List.length_singleton, hid]
      simp
    · exact .pure hr.1
  · exact .pure hq

/-! ## Segments and datagrams -/

/-- A datagram is handled, or its length is a lie. -/
theorem handleUdp_failsIff (st : NetStack) (seg : Bytes) (ip : Ip4) :
    (st.handleUdp seg ip).FailsIff (ShortUdp seg) fun _ => True := by
  unfold handleUdp
  split
  · rename_i hlen
    exact .never (fun h => absurd h.1 (by omega)) (.pure trivial)
  rename_i hlen
  obtain ⟨sport, hsport⟩ : ∃ v, getU16 seg 0 = .ok v := getU16_ok (by omega)
  obtain ⟨dport, hdport⟩ : ∃ v, getU16 seg 2 = .ok v := getU16_ok (by omega)
  obtain ⟨len, hl⟩ : ∃ v, getU16 seg 4 = .ok v := getU16_ok (by omega)
  refine .bind_right hsport (.bind_right hdport (.bind_right hl ?_))
  rcases Nat.lt_or_ge len.toNat 8 with hlt | hge
  · have hs : slice seg 8 (min len.toNat seg.length) = .error .index := by
      rw [slice, if_neg (by omega)]
    refine .always ⟨by omega, len, hl, hlt⟩ (e := .index) ?_
    rw [hs]
    rfl
  · refine .never ?_ ((slice_gives (by omega) (by omega)).bind fun data _ => .pure trivial)
    rintro ⟨-, len', hl', hlt⟩
    rw [hl] at hl'
    cases hl'
    omega

/-- The segment arms a timer of the socket it finds, and cannot. -/
def NoTimer (st : NetStack) (dport : UInt16) (g : TcpSeg) (now : Nat) : Prop :=
  g.rst = false ∧ ∃ i s, st.tcpFind dport g.peerIp g.peerPort = some i ∧ st.tcp i = some s ∧
    s.TimesOut g now

theorem deliverTcp_failsIff (hfit : Fits st.tcp) (hq : q.Sound) (dport : UInt16) (g : TcpSeg) :
    (st.deliverTcp dport g now q).FailsIff (st.NoTimer dport g now) fun w => w.2.Sound := by
  unfold deliverTcp
  cases hfind : st.tcpFind dport g.peerIp g.peerPort with
  | none =>
    refine .never ?_ ?_
    · rintro ⟨-, i, s, hi, -⟩
      rw [hfind] at hi
      cases hi
    · simp only
      split
      · exact (emit_gives _ hq _).bind fun ctx hctx => .pure hctx
      · exact .pure hq
  | some i =>
    have hany := (Line.find?_finRange hfind).1
    cases hs : st.tcp i with
    | none =>
      rw [hs] at hany
      cases hany
    | some s =>
      rw [hs] at hany
      have halive := (matchesSeg_iff.mp hany).2.1
      simp only [hs]
      rcases TcpSocket.rxSegment_cases (g := g) (hfit i s hs) with
        ⟨s', os, hrx, hseg⟩ | ⟨-, hrst, ht, e, he⟩
      · refine .never ?_ ?_
        · rintro ⟨hrst, i', s₁, hi, hs₁, ht⟩
          rw [hfind] at hi
          cases hi
          rw [hs] at hs₁
          cases hs₁
          obtain ⟨e, he⟩ := TcpSocket.rxSegment_timesOut (hfit i s hs) halive hrst ht
          rw [hrx] at he
          cases he
        · rw [hrx]
          exact (emit_gives _ hq _).bind fun ctx hctx => .pure hctx
      · refine .always ⟨hrst, i, s, hfind, hs, ht⟩ (e := e) ?_
        rw [he]
        rfl

theorem handleTcp_failsIff (hfit : Fits st.tcp) (hq : q.Sound) (seg : Bytes) (ip : Ip4) (mac : Mac) :
    (st.handleTcp seg ip mac now q).FailsIff (st.LateSyn seg ip now) fun w => w.2.Sound := by
  unfold handleTcp
  split
  · rename_i hlen
    exact .never (fun h => absurd h.1 (by omega)) (.pure hq)
  rename_i hlen
  obtain ⟨sport, hsport⟩ : ∃ v, getU16 seg 0 = .ok v := getU16_ok (by omega)
  obtain ⟨dport, hdport⟩ : ∃ v, getU16 seg 2 = .ok v := getU16_ok (by omega)
  obtain ⟨seq, hseq⟩ : ∃ v, getU32 seg 4 = .ok v := getU32_ok (by omega)
  obtain ⟨ack, hack⟩ : ∃ v, getU32 seg 8 = .ok v := getU32_ok (by omega)
  obtain ⟨off, hoff⟩ : ∃ v, byteAt seg 12 = .ok v := ⟨_, byteAt_ok (by omega)⟩
  obtain ⟨flags, hflags⟩ : ∃ v, byteAt seg 13 = .ok v := ⟨_, byteAt_ok (by omega)⟩
  obtain ⟨wnd, hwnd⟩ : ∃ v, getU16 seg 14 = .ok v := getU16_ok (by omega)
  -- the fields are those that the condition speaks of
  have hfields : st.LateSyn seg ip now ↔ 2 ^ 64 ≤ now + rtoTicks ∧
      20 ≤ off.toNat / 16 * 4 ∧ off.toNat / 16 * 4 ≤ seg.length ∧
      flags &&& flagSyn ≠ 0 ∧ flags &&& flagRst = 0 ∧
      ∃ i s, st.tcpFind dport ip sport = some i ∧ st.tcp i = some s ∧
        (s.state = .listen ∨ s.state = .synRcvd) := by
    unfold LateSyn
    rw [hsport, hdport, hoff, hflags]
    constructor
    · rintro ⟨-, hnow, sp, dp, o, f, h₁, h₂, h₃, h₄, h₅, h₆, h₇, h₈, h₉⟩
      cases h₁
      cases h₂
      cases h₃
      cases h₄
      exact ⟨hnow, h₅, h₆, h₇, h₈, h₉⟩
    · rintro ⟨hnow, h₅, h₆, h₇, h₈, h₉⟩
      exact ⟨by omega, hnow, sport, dport, off, flags, rfl, rfl, rfl, rfl, h₅, h₆, h₇, h₈, h₉⟩
  refine Except.FailsIff.congr ?_ hfields.symm
  refine .bind_right hsport (.bind_right hdport (.bind_right hseq (.bind_right hack
    (.bind_right hoff (.bind_right hflags (.bind_right hwnd ?_))))))
  split
  · rename_i hbad
    exact .never (fun h => hbad.elim (by omega) (by omega)) (.pure hq)
  rename_i hgood
  have hslice : (slice seg (off.toNat / 16 * 4) seg.length).Gives _ :=
    slice_gives (by omega) (Nat.le_refl _)
  obtain ⟨payload, hpay, -⟩ := hslice
  refine .bind_right hpay ((deliverTcp_failsIff hfit hq dport _).congr ?_)
  constructor
  · rintro ⟨hrst, i, s, hfind, hs, hst, hsyn, hnow⟩
    exact ⟨hnow, by omega, by omega, by simpa [segOf] using hsyn, by simpa [segOf] using hrst, i, s,
      hfind, hs, hst⟩
  · rintro ⟨hnow, -, -, hsyn, hrst, i, s, hfind, hs, hst⟩
    exact ⟨by simpa [segOf] using hrst, i, s, hfind, hs, hst, by simpa [segOf] using hsyn, hnow⟩

/-! ## Frames -/

theorem LateSyn.cacheAdd {seg : Bytes} {src ip : Ip4} {mac : Mac} :
    (st.cacheAdd ip mac).LateSyn seg src now ↔ st.LateSyn seg src now := by
  have htcp := cacheAdd_tcp st ip mac
  unfold LateSyn
  simp only [tcpFind_congr htcp, htcp]

theorem handleIp4_failsIff (hfit : Fits st.tcp) (hq : q.Sound) (frame : Bytes) (mac : Mac) :
    (st.handleIp4 frame mac now q).FailsIff
      (∃ hdr, parseIp4 frame = .ok (some hdr) ∧ hdr.dst = st.myIp ∧ st.BadPacket frame hdr now)
      fun w => w.2.Sound := by
  obtain ⟨r, hr, hchecked⟩ := parseIp4_gives frame
  refine .bind_right hr ?_
  rw [hr]
  cases r with
  | none => exact .never (by rintro ⟨hdr, h, -⟩; cases h) (.pure hq)
  | some hdr =>
    obtain ⟨htotal, hstart⟩ := hchecked hdr rfl
    simp only
    split
    · rename_i hdst
      refine .never ?_ (.pure hq)
      rintro ⟨hdr', h, hmine, -⟩
      cases h
      exact hdst hmine
    rename_i hdst
    refine Except.FailsIff.congr (A := st.BadPacket frame hdr now) ?_ ?_
    · rw [Nat.min_eq_right htotal]
      rcases Nat.lt_or_ge (14 + hdr.totalLen) hdr.transport with hlt | hge
      · have hs : slice frame hdr.transport (14 + hdr.totalLen) = .error .index := by
          rw [slice, if_neg (by omega)]
        refine .always (Or.inl hlt) (e := .index) ?_
        rw [hs]
        rfl
      · obtain ⟨seg, hseg, -⟩ := slice_gives hge htotal
        have hfit' : Fits (st.cacheAdd hdr.src mac).tcp := by
          rw [cacheAdd_tcp]
          exact hfit
        have hbad : st.BadPacket frame hdr now ↔ (hdr.proto = ipprotoUdp ∧ ShortUdp seg) ∨
            (hdr.proto = ipprotoTcp ∧ st.LateSyn seg hdr.src now) := by
          unfold BadPacket
          rw [hseg]
          constructor
          · rintro (h | ⟨seg', h, hb⟩)
            · omega
            · cases h
              exact hb
          · exact fun h => Or.inr ⟨seg, rfl, h⟩
        refine .bind_right hseg (Except.FailsIff.congr ?_ hbad.symm)
        split
        · rename_i hp
          refine .never ?_ (handleIcmp_gives hq _ _ _)
          rw [hp]
          rintro (⟨h, -⟩ | ⟨h, -⟩) <;> exact absurd h (by decide)
        split
        · rename_i hp
          refine Except.FailsIff.congr
            (Except.FailsIff.bind_left (handleUdp_failsIff _ seg hdr.src) fun st' _ => ?_) ?_
          · exact .pure hq
          rw [hp]
          exact ⟨fun h => Or.inl ⟨rfl, h⟩, fun h => h.elim (·.2) fun h => absurd h.1 (by decide)⟩
        split
        · rename_i hp
          refine (handleTcp_failsIff hfit' hq seg hdr.src mac).congr ?_
          rw [LateSyn.cacheAdd, hp]
          exact ⟨fun h => Or.inr ⟨rfl, h⟩, fun h => h.elim (fun h => absurd h.1 (by decide)) (·.2)⟩
        · rename_i hudp htcp
          exact .never (fun h => h.elim (fun h => hudp h.1) fun h => htcp h.1) (.pure hq)
    · constructor
      · exact fun h => ⟨hdr, rfl, not_not.mp hdst, h⟩
      · rintro ⟨hdr', h, -, hb⟩
        cases h
        exact hb

theorem onFrame_failsIff (hfit : Fits st.tcp) (hq : q.Sound) (frame : Bytes) :
    (st.onFrame frame now q).FailsIff (st.BadFrame frame now) fun w => w.2.Sound := by
  obtain ⟨r, hr, -⟩ := parseEth_gives frame
  refine .bind_right hr ?_
  unfold BadFrame
  rw [hr]
  cases r with
  | none => exact .never (by rintro ⟨d, m, hdr, h, -⟩; cases h) (.pure hq)
  | some m =>
    obtain ⟨dst, srcMac, etype⟩ := m
    simp only
    split
    · rename_i hother
      refine .never ?_ (.pure hq)
      rintro ⟨d, m, hdr, h, hmine, -⟩
      cases h
      exact hmine.elim hother.1 hother.2
    rename_i hmine
    split
    · rename_i harp
      refine .never ?_ (handleArp_gives hq frame)
      rintro ⟨d, m, hdr, h, -⟩
      rw [harp] at h
      cases h
    split
    · rename_i hip
      refine (handleIp4_failsIff hfit hq frame srcMac).congr ?_
      constructor
      · rintro ⟨hdr, hparse, hdst, hb⟩
        refine ⟨dst, srcMac, hdr, by rw [hip], ?_, hparse, hdst, hb⟩
        rcases eq_or_ne dst st.mac with h | h
        · exact Or.inl h
        · exact Or.inr (not_not.mp fun h' => hmine ⟨h, h'⟩)
      · rintro ⟨d, m, hdr, -, -, hparse, hdst, hb⟩
        exact ⟨hdr, hparse, hdst, hb⟩
    · rename_i hip
      refine .never ?_ (.pure hq)
      rintro ⟨d, m, hdr, h, -⟩
      cases h
      exact hip rfl

/-! ## Every reachable state -/

/-- A stack and its queue, after some operations. -/
def Reachable (w : Wired) : Prop :=
  ∃ myIp gwIp ops, LTS.Run Does (new myIp gwIp, OutQueue.new) ops w

theorem icmpEchoSend_sound {dst : Ip4} {r : Wired × Bool} (hq : q.Sound)
    (h : st.icmpEchoSend dst q = .ok r) : r.1.2.Sound := by
  obtain ⟨m, -, h⟩ := bind_eq_ok.mp h
  cases m with
  | none =>
    cases h
    exact hq
  | some mac =>
    obtain ⟨⟨ctx, sent⟩, hctx, h⟩ := bind_eq_ok.mp h
    have hs := (pushIcmp_ok (st.ctx q) hq mac dst (by simp [be16_length]) echoPayload).of_eq hctx
    simp only at h
    split at h <;> cases h <;> exact hs.1

theorem udpSend_sound {i : Fin maxSockets} {dst : Ip4} {port : UInt16} {payload : Bytes}
    {r : Wired × Bool} (hq : q.Sound) (h : st.udpSend i dst port payload q = .ok r) :
    r.1.2.Sound := by
  unfold udpSend at h
  split at h
  · cases h
    exact hq
  · obtain ⟨m, -, h⟩ := bind_eq_ok.mp h
    cases m with
    | none =>
      cases h
      exact hq
    | some mac =>
      obtain ⟨⟨ctx, sent⟩, hctx, h⟩ := bind_eq_ok.mp h
      have hs := (pushUdpFrame_ok (st.ctx q) hq mac dst _ port payload).of_eq hctx
      cases h
      exact hs.1

theorem tcpConnect_sound {dst : Ip4} {port : UInt16} {r : Wired × Option (Fin maxSockets)}
    (hq : q.Sound) (h : st.tcpConnect dst port now q = .ok r) : r.1.2.Sound := by
  obtain ⟨m, -, h⟩ := bind_eq_ok.mp h
  cases m with
  | none =>
    cases h
    exact hq
  | some mac =>
    simp only at h
    split at h
    · cases h
      exact hq
    · obtain ⟨s, -, h⟩ := bind_eq_ok.mp h
      obtain ⟨ctx, hctx, h⟩ := bind_eq_ok.mp h
      have hs := (emit_gives (st.ctx q) hq _).of_eq hctx
      cases h
      exact hs

theorem poll_sound (hq : q.Sound) (h : st.poll now q = .ok w) : w.2.Sound := by
  refine Except.Ensures.foldlM (R := fun w w' : Wired => w.2.Sound → w'.2.Sound) (fun _ => id)
    (fun h h' hs => h' (h hs)) ?_ h hq
  intro w i _ w' hw hs
  unfold pollOne at hw
  split at hw
  · cases hw
    exact hs
  · obtain ⟨⟨s', os⟩, -, hw⟩ := bind_eq_ok.mp hw
    obtain ⟨ctx, hctx, hw⟩ := bind_eq_ok.mp hw
    have hsound := (emit_gives (w.1.ctx w.2) hs os).of_eq hctx
    cases hw
    exact hsound

theorem run_sound {op : Op} (hfit : Fits w.1.tcp) (hq : w.2.Sound) (h : NetStack.run w op = .ok w') :
    w'.2.Sound := by
  cases op with
  | setMac | udpBind | udpOpen | udpUnread | tcpListen | tcpWrite | tcpRead | tcpClose | tcpTakeEvent
  | tcpFree | clearQueue =>
    cases h
    exact hq
  | newQueue =>
    cases h
    exact OutQueue.sound_new
  | arpProbe =>
    obtain ⟨r, hr, rfl⟩ := map_eq_ok h
    exact (pushArp_ok hq w.1.mac w.1.myIp 1 List.length_replicate List.length_replicate
      w.1.gwIp).of_eq hr
  | icmpEchoSend dst =>
    obtain ⟨r, hr, rfl⟩ := map_eq_ok h
    exact icmpEchoSend_sound hq hr
  | udpSend i dst port payload =>
    obtain ⟨r, hr, rfl⟩ := map_eq_ok h
    exact udpSend_sound hq hr
  | tcpConnect dst port now =>
    obtain ⟨r, hr, rfl⟩ := map_eq_ok h
    exact tcpConnect_sound hq hr
  | onFrame frame now => exact (onFrame_failsIff hfit hq frame).of_eq h
  | poll now => exact poll_sound hq h

theorem Reachable.sound (h : Reachable w) : Fits w.1.tcp ∧ w.2.Sound := by
  obtain ⟨myIp, gwIp, ops, hrun⟩ := h
  refine hrun.invariant (I := fun w => Fits w.1.tcp ∧ w.2.Sound) ?_ ?_
  · intro w op w' hi hd
    exact ⟨hi.1.step (run_table hd), run_sound hi.1 hi.2 hd⟩
  · exact ⟨fun i s hi => (by cases hi), OutQueue.sound_new⟩

theorem onFrame_survives_iff (h : Reachable w) (frame : Bytes) (now : Nat) :
    (∃ w', w.1.onFrame frame now w.2 = .ok w') ↔ ¬ w.1.BadFrame frame now := by
  obtain ⟨hfit, hq⟩ := h.sound
  exact (onFrame_failsIff hfit hq frame).ok_iff

/-! ## Two frames -/

/-- An IPv4 frame to 10.10.10.10 with the given header byte, total length and payload. -/
def ipFrame (vihl total proto : UInt8) (payload : Bytes) : Bytes :=
  List.replicate 6 0xFF ++ List.replicate 6 2 ++ be16 ethertypeIpv4 ++
    [vihl, 0, 0, total, 0, 0, 0, 0, 64, proto, 0, 0] ++ List.replicate 4 20 ++ List.replicate 4 10 ++
    payload

theorem new_reachable : Reachable (new (Vector.replicate 4 10) (Vector.replicate 4 20), OutQueue.new) :=
  ⟨_, _, [], .nil _⟩

/-- A datagram of two bytes is survived. -/
theorem onFrame_survives_datagram : ¬ (new (Vector.replicate 4 10) (Vector.replicate 4 20)).BadFrame
    (ipFrame 0x45 30 17 [0, 1, 0, 2, 0, 10, 0, 0, 7, 7]) 0 := by
  refine (onFrame_survives_iff new_reachable _ 0).mp ?_
  have hok : (next (new (Vector.replicate 4 10) (Vector.replicate 4 20), OutQueue.new)
      (.onFrame (ipFrame 0x45 30 17 [0, 1, 0, 2, 0, 10, 0, 0, 7, 7]) 0)).isSome = true := by
    decide +kernel
  obtain ⟨w, hw⟩ := Option.isSome_iff_exists.mp hok
  exact ⟨w, next_does hw⟩

/-- A header of 24 bytes in a packet of 20: the payload would end before it starts. -/
theorem short_packet_panics : ¬ ∀ (w : Wired) (frame : Bytes) (now : Nat), Reachable w →
    now < 2 ^ 64 → ∃ w', w.1.onFrame frame now w.2 = .ok w' := by
  intro hall
  obtain ⟨w', hw'⟩ := hall _ (ipFrame 0x46 20 17 [0, 0, 0, 0]) 0 new_reachable (by decide)
  have hfail : (next (new (Vector.replicate 4 10) (Vector.replicate 4 20), OutQueue.new)
      (.onFrame (ipFrame 0x46 20 17 [0, 0, 0, 0]) 0)).isNone = true := by
    decide +kernel
  unfold next NetStack.run at hfail
  simp only [hw'] at hfail
  cases hfail

end NetStack

end Net

end Tanix
