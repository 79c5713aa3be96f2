/-
# `Tanix.Net.Demux` — which socket gets a segment

`tcp_find` takes the first slot that matches: a listener on the port, or a connection with
the segment's two addresses.  A socket *shadows* another one when every segment for the
other also matches it and the scan comes to it first.  A segment is handled by the
connection it belongs to exactly when no slot is shadowed by an earlier one (`Apart`).

    tcp_listen   refuses a port with a connection on it, so it shadows nothing
    a SYN        goes to the first listener, so all that it could shadow was shadowed before
    tcp_connect  takes the next ephemeral port without a look at the table

Only the last can break it.  It does so when the port is that of a listener in an earlier
slot, or, once the counter has come round, of a connection to the same remote end.
-/
import Tanix.Lib.Line
import Tanix.Net.Table

namespace Tanix

open LTS
open Function (update_of_ne update_self)

namespace Net

/-! ## What becomes of a socket's end -/

namespace TcpSocket

variable {s s' u u' : TcpSocket} {g : TcpSeg} {now : Nat} {os : List TcpOut}

/-- The same end of the same connection, or the same listener; dead stays dead. -/
structure SameEnd (s s' : TcpSocket) : Prop where
  localPort : s'.localPort = s.localPort
  peerIp : s'.peerIp = s.peerIp
  peerPort : s'.peerPort = s.peerPort
  listen : s'.state = .listen ↔ s.state = .listen
  dead : s.dead = true → s'.dead = true

theorem SameEnd.trans {s'' : TcpSocket} (h : SameEnd s s') (h' : SameEnd s' s'') : SameEnd s s'' :=
  ⟨h'.localPort.trans h.localPort, h'.peerIp.trans h.peerIp, h'.peerPort.trans h.peerPort,
    h'.listen.trans h.listen, fun hd => h'.dead (h.dead hd)⟩

theorem SameEnd.refl (s : TcpSocket) : SameEnd s s :=
  ⟨rfl, rfl, rfl, Iff.rfl, id⟩

/-- A listener has taken a SYN. -/
structure Accepts (s : TcpSocket) (g : TcpSeg) (s' : TcpSocket) : Prop where
  was : s.state = .listen
  localPort : s'.localPort = s.localPort
  peerIp : s'.peerIp = g.peerIp
  peerPort : s'.peerPort = g.peerPort

theorem sameEnd_acked (s : TcpSocket) (ack : UInt32) : SameEnd s (s.acked ack) := by
  obtain ⟨_, _, _, _, _, he, hd⟩ := s.acked_eq ack
  rw [he]
  unfold consumed
  split <;> exact ⟨rfl, rfl, rfl, Iff.rfl, hd⟩

theorem sameEnd_ackedBy (s : TcpSocket) (g : TcpSeg) : SameEnd s (s.ackedBy g) := by
  unfold ackedBy
  split
  · have hwnd : SameEnd s { s with peerWnd := g.window.toNat } := ⟨rfl, rfl, rfl, Iff.rfl, id⟩
    exact hwnd.trans (sameEnd_acked _ g.ack)
  · exact .refl s

theorem sameEnd_tookBody (s : TcpSocket) (g : TcpSeg) (ph : Bool) : SameEnd s (s.tookBody g ph) := by
  have hst : (s.tookBody g ph).state = .listen ↔ s.state = .listen := by
    rcases s.tookBody_state_cases g ph with hs | ⟨hs, -, hs'⟩
    · rw [hs]
    · simp [hs, hs']
  obtain ⟨_, _, _, _, _, he, hd⟩ := s.tookBody_eq g ph
  rw [he]
  exact ⟨rfl, rfl, rfl, hst, hd⟩

theorem byState_end (hb : ByState s g now s' os) : SameEnd s s' ∨ s.Accepts g s' := by
  cases hb with
  | stray => exact Or.inl ⟨rfl, rfl, rfl, Iff.rfl, fun _ => rfl⟩
  | opened hst => exact Or.inr ⟨hst, rfl, rfl, rfl⟩
  | silent | pending => exact Or.inl (.refl s)
  | reopened => exact Or.inl ⟨rfl, rfl, rfl, Iff.rfl, id⟩
  | answered hst =>
    have hans : SameEnd s (s.answered g) := by
      obtain ⟨_, _, _, _, st, he, h⟩ := s.answered_eq g
      rw [he]
      refine ⟨rfl, rfl, rfl, ?_, id⟩
      rcases h with rfl | rfl <;> simp [hst]
    exact Or.inl (hans.trans (sameEnd_tookBody _ g true))
  | completed hst =>
    have hest : SameEnd s s.establish := ⟨rfl, rfl, rfl, by simp [establish, hst], id⟩
    exact Or.inl (hest.trans (sameEnd_tookBody _ g true))
  | flowing => exact Or.inl (sameEnd_tookBody s g false)

/-- A segment leaves the end as it is, unless it opens a listener. -/
theorem segment_end (hfit : s.Fit) (h : s.Does (.segment g now) s') :
    SameEnd s s' ∨ (s.dead = false ∧ s.Accepts g s') := by
  obtain ⟨os, h⟩ := h
  cases rxSegment_segment hfit h with
  | ignored => exact Or.inl (.refl s)
  | reset => exact Or.inl ⟨rfl, rfl, rfl, Iff.rfl, fun _ => rfl⟩
  | processed hd hr hb =>
    have hack := sameEnd_ackedBy s g
    rcases byState_end hb with h' | h'
    · exact Or.inl (hack.trans h')
    · exact Or.inr ⟨hd, hack.listen.mp h'.was, h'.localPort.trans hack.localPort, h'.peerIp,
        h'.peerPort⟩

/-- The application and the timer leave it as it is. -/
theorem local_end {op : SockOp} (hin : op.inbound = false) (h : s.Does op s') : SameEnd s s' := by
  obtain ⟨os, h⟩ := h
  have hl := run_local hin h
  have hends := hl.ends
  simp only [Prod.mk.injEq] at hends
  exact ⟨hends.1, hends.2.1, hends.2.2.1, by rw [hl.state], hl.dead⟩

/-! ## Shadows -/

/-- Both are alive, and every segment for the connection `u` matches `s` as well. -/
structure Shadows (s u : TcpSocket) : Prop where
  alive : s.dead = false
  alive' : u.dead = false
  localPort : s.localPort = u.localPort
  connected : u.state ≠ .listen
  takes : s.state = .listen ∨ (s.peerIp = u.peerIp ∧ s.peerPort = u.peerPort)

theorem SameEnd.alive (h : SameEnd s s') (hd : s'.dead = false) : s.dead = false := by
  cases hs : s.dead with
  | false => rfl
  | true =>
    rw [h.dead hs] at hd
    cases hd

theorem Shadows.same (h : Shadows s' u') (hs : SameEnd s s') (hu : SameEnd u u') : Shadows s u := by
  refine ⟨hs.alive h.alive, hu.alive h.alive', ?_, fun hl => h.connected (hu.listen.mpr hl), ?_⟩
  · rw [← hs.localPort, ← hu.localPort]
    exact h.localPort
  · rw [← hs.listen, ← hs.peerIp, ← hs.peerPort, ← hu.peerIp, ← hu.peerPort]
    exact h.takes

end TcpSocket

/-- No slot is shadowed by an earlier one. -/
def Apart (t : SockTable) : Prop :=
  ∀ i j s u, i < j → t i = some s → t j = some u → ¬ s.Shadows u

/-- Every socket's buffers fit. -/
def Fits (t : SockTable) : Prop :=
  ∀ i s, t i = some s → s.Fit

variable {t : SockTable} {i : Fin maxSockets} {s s' : TcpSocket}

theorem Fits.update (h : Fits t) (hs : s.Fit) (i : Fin maxSockets) :
    Fits (Function.update t i (some s)) := by
  intro j u hj
  rcases eq_or_ne j i with rfl | hne
  · rw [update_self] at hj
    cases hj
    exact hs
  · rw [update_of_ne hne] at hj
    exact h j u hj

theorem Fits.step {st : NetStack} {op : Op} {t' : SockTable} (h : Fits st.tcp)
    (hs : TableStep st op t') : Fits t' := by
  cases hs with
  | same => exact h
  | listen hfree hport => exact h.update (TcpSocket.Fresh.listen _).fit _
  | connect hfree hs => exact h.update (TcpSocket.Fresh.connect _ _ _ _ _ _ hs).fit _
  | app hs hin hd => exact h.update ((h _ _ hs).does hd) _
  | free =>
    intro j u hj
    rename_i i
    rcases eq_or_ne j i with rfl | hne
    · rw [update_self] at hj
      cases hj
    · rw [update_of_ne hne] at hj
      exact h j u hj
  | segment hfind hs hd => exact h.update ((h _ _ hs).does hd) _
  | poll hp =>
    intro j u hj
    have hslot := hp j
    rw [hj] at hslot
    generalize hold : st.tcp j = old at hslot
    cases hslot with
    | polled hd => exact (h j _ hold).does hd

/-- One slot is filled. -/
theorem Apart.update (h : Apart t) (hbefore : ∀ j u, j < i → t j = some u → ¬ u.Shadows s)
    (hafter : ∀ j u, i < j → t j = some u → ¬ s.Shadows u) :
    Apart (Function.update t i (some s)) := by
  intro j k a b hlt hj hk
  rcases eq_or_ne j i with rfl | hji
  · rw [update_self] at hj
    rw [update_of_ne hlt.ne'] at hk
    cases hj
    exact hafter k b hlt hk
  rw [update_of_ne hji] at hj
  rcases eq_or_ne k i with rfl | hki
  · rw [update_self] at hk
    cases hk
    exact hbefore j a hlt hj
  · rw [update_of_ne hki] at hk
    exact h j k a b hlt hj hk

/-- A socket that keeps its end shadows no more than before. -/
theorem Apart.sameEnd (h : Apart t) (hs : t i = some s) (he : s.SameEnd s') :
    Apart (Function.update t i (some s')) :=
  h.update (fun j u hlt hj hc => h j i u s hlt hj hs (hc.same (.refl u) he))
    fun j u hlt hj hc => h i j s u hlt hs hj (hc.same he (.refl u))

namespace NetStack

/-! ## The condition -/

/-- The next ephemeral port is that of no listener in an earlier slot, and of no connection to the
same remote end. -/
def PortFree (w : Wired) : Op → Prop
  | .tcpConnect dst port _ => ∀ i, w.1.firstFree = some i → ∀ j s, w.1.tcp j = some s →
      s.dead = false → s.localPort = w.1.ephemeral →
        (s.state = .listen → i < j) ∧ (s.state ≠ .listen → ¬ (s.peerIp = dst ∧ s.peerPort = port))
  | _ => True

variable {st : NetStack} {w w' : Wired} {op : Op}

theorem matchesSeg_iff {dport : UInt16} {ip : Ip4} {sport : UInt16} :
    matchesSeg dport ip sport s = true ↔ s.localPort = dport ∧ s.dead = false ∧
      (s.state = .listen ∨ (s.peerIp = ip ∧ s.peerPort = sport)) := by
  simp [matchesSeg, and_assoc]

/-- The first SYN makes a connection of a listener: whom it shadows, the listener shadowed. -/
theorem Apart.accepts (h : Apart st.tcp) {dport : UInt16} {g : TcpSeg}
    (hfind : st.tcpFind dport g.peerIp g.peerPort = some i) (hs : st.tcp i = some s)
    (hd : s.dead = false) (ha : s.Accepts g s') : Apart (Function.update st.tcp i (some s')) := by
  obtain ⟨hmatch, hbefore⟩ := Line.find?_finRange hfind
  rw [hs] at hmatch
  obtain ⟨hport, -, -⟩ := matchesSeg_iff.mp hmatch
  refine h.update (fun j u hlt hj hc => ?_) fun j u hlt hj hc => ?_
  · -- an earlier slot that shadows the new connection would have taken the SYN
    have hno := hbefore j hlt
    rw [hj] at hno
    have hyes : matchesSeg dport g.peerIp g.peerPort u = true := by
      refine matchesSeg_iff.mpr ⟨(hc.localPort.trans ha.localPort).trans hport, hc.alive, ?_⟩
      rw [← ha.peerIp, ← ha.peerPort]
      exact hc.takes
    cases hno.symm.trans hyes
  · exact h i j s u hlt hs hj
      ⟨hd, hc.alive', ha.localPort.symm.trans hc.localPort, hc.connected, Or.inl ha.was⟩

theorem Apart.step (hfit : Fits w.1.tcp) (h : Apart w.1.tcp) (hp : PortFree w op)
    (hs : TableStep w.1 op w'.1.tcp) : Apart w'.1.tcp := by
  generalize w'.1.tcp = t at hs
  cases hs with
  | same => exact h
  | listen hfree hport =>
    refine h.update (fun j u _ _ hc => hc.connected rfl) fun j u _ hj hc => ?_
    exact hc.connected (hport j u hj hc.localPort.symm)
  | connect hfree hs =>
    obtain ⟨d, -, hs⟩ := bind_eq_ok.mp hs
    cases hs
    refine h.update (fun j u hlt hj hc => ?_) fun j u hlt hj hc => ?_
    · obtain ⟨hlisten, hconn⟩ := hp _ hfree j u hj hc.alive hc.localPort
      rcases hc.takes with hl | ⟨h₁, h₂⟩
      · exact absurd (hlisten hl) hlt.asymm
      · exact hconn (fun hl => absurd (hlisten hl) hlt.asymm) ⟨h₁, h₂⟩
    · obtain ⟨-, hconn⟩ := hp _ hfree j u hj hc.alive' hc.localPort.symm
      rcases hc.takes with hl | ⟨h₁, h₂⟩
      · cases hl
      · exact hconn hc.connected ⟨h₁.symm, h₂.symm⟩
  | app hs hin hd => exact h.sameEnd hs (TcpSocket.local_end hin hd)
  | free =>
    rename_i i
    intro j k a b hlt hj hk
    have hne : ∀ x y, Function.update w.1.tcp i none x = some y → w.1.tcp x = some y := by
      intro x y hx
      rcases eq_or_ne x i with rfl | hxi
      · rw [update_self] at hx
        cases hx
      · rwa [update_of_ne hxi] at hx
    exact h j k a b hlt (hne j a hj) (hne k b hk)
  | segment hfind hs hd =>
    rcases TcpSocket.segment_end (hfit _ _ hs) hd with he | ⟨halive, ha⟩
    · exact h.sameEnd hs he
    · exact Apart.accepts h hfind hs halive ha
  | poll hpoll =>
    have hend : ∀ i s', t i = some s' → ∃ s, w.1.tcp i = some s ∧ s.SameEnd s' := by
      intro i s' hi
      have hslot := hpoll i
      rw [hi] at hslot
      generalize hold : w.1.tcp i = old at hslot
      cases hslot with
      | polled hd => exact ⟨_, rfl, TcpSocket.local_end rfl hd⟩
    intro j k a b hlt hj hk hc
    obtain ⟨a₀, ha₀, hea⟩ := hend j a hj
    obtain ⟨b₀, hb₀, heb⟩ := hend k b hk
    exact h j k a₀ b₀ hlt ha₀ hb₀ (hc.same hea heb)

/-! ## The result -/

/-- A segment for a live connection is handled by that connection, and no other socket changes. -/
def Demuxed (st : NetStack) : Prop :=
  ∀ j u dport (g : TcpSeg), st.tcp j = some u → u.state ≠ .listen → u.dead = false →
    u.localPort = dport → u.peerIp = g.peerIp → u.peerPort = g.peerPort →
      st.tcpFind dport g.peerIp g.peerPort = some j ∧
        ∀ now q st' q', st.deliverTcp dport g now q = .ok (st', q') →
          ∃ u', u.Does (.segment g now) u' ∧ st'.tcp = Function.update st.tcp j (some u')

theorem demuxed_of_apart (h : Apart st.tcp) : st.Demuxed := by
  intro j u dport g hj hst hd hport hip hsp
  have hmatch : matchesSeg dport g.peerIp g.peerPort u = true :=
    matchesSeg_iff.mpr ⟨hport, hd, Or.inr ⟨hip, hsp⟩⟩
  have hfind : st.tcpFind dport g.peerIp g.peerPort = some j := by
    cases hf : st.tcpFind dport g.peerIp g.peerPort with
    | none =>
      have hno := List.find?_eq_none.mp hf j (List.mem_finRange j)
      rw [hj] at hno
      exact absurd hmatch hno
    | some i =>
      obtain ⟨hp, hbefore⟩ := Line.find?_finRange hf
      rcases lt_trichotomy i j with hlt | rfl | hgt
      · -- an earlier match would be a shadow
        cases hs : st.tcp i with
        | none =>
          rw [hs] at hp
          cases hp
        | some s =>
          rw [hs] at hp
          obtain ⟨h₁, h₂, h₃⟩ := matchesSeg_iff.mp hp
          refine absurd ⟨h₂, hd, h₁.trans hport.symm, hst, ?_⟩ (h i j s u hlt hs hj)
          rw [hip, hsp]
          exact h₃
      · rfl
      · have hno := hbefore j hgt
        rw [hj] at hno
        exact absurd hmatch (Bool.eq_false_iff.mp hno)
  refine ⟨hfind, fun now q st' q' hr => ?_⟩
  rcases deliverTcp_tcp hr with ⟨hnone, -⟩ | ⟨i, s, s', hi, hs, hdoes, he⟩
  · rw [hfind] at hnone
    cases hnone
  · rw [hfind] at hi
    cases hi
    rw [hj] at hs
    cases hs
    exact ⟨s', hdoes, he⟩

theorem demultiplexes {myIp gwIp : Ip4} {ops : List Op}
    (hrun : Run (guarded Does PortFree) (new myIp gwIp, OutQueue.new) ops w) :
    w.1.Demuxed := by
  have hinv : Fits w.1.tcp ∧ Apart w.1.tcp := by
    refine hrun.invariant_guarded (I := fun w => Fits w.1.tcp ∧ Apart w.1.tcp) ?_ ?_
    · intro w op w' hi hp hd
      have hs := run_table hd
      exact ⟨hi.1.step hs, Apart.step hi.1 hi.2 hp hs⟩
    · exact ⟨fun i s hi => (by cases hi), fun i j s u _ hi => (by cases hi)⟩
  exact demuxed_of_apart hinv.2

/-! ## Two runs -/

/-- The operation as a function; `none` where it panics. -/
def next (w : Wired) (op : Op) : Option Wired :=
  match NetStack.run w op with
  | .ok w' => some w'
  | .error _ => none

theorem next_does (h : next w op = some w') : Does w op w' := by
  unfold next at h
  split at h
  · rename_i w₁ hr
    cases h
    exact hr
  · cases h

/-- `PortFree`, tested. -/
def portFree (w : Wired) : Op → Bool
  | .tcpConnect dst port _ => w.1.firstFree.all fun i => (List.finRange maxSockets).all fun j =>
    (w.1.tcp j).all fun s => s.dead || s.localPort != w.1.ephemeral ||
      (if s.state = .listen then decide (i < j) else !(s.peerIp == dst && s.peerPort == port))
  | _ => true

theorem portFree_sound (h : portFree w op = true) : PortFree w op := by
  cases op with
  | tcpConnect dst port now =>
    intro i hi j s hs hd hport
    simp only [portFree, hi, Option.all_some, List.all_eq_true] at h
    have hj := h j (List.mem_finRange j)
    rw [hs, Option.all_some, hd, hport, bne_self_eq_false, Bool.or_self, Bool.false_or] at hj
    split at hj
    · rename_i hst
      exact ⟨fun _ => of_decide_eq_true hj, fun hc => absurd hst hc⟩
    · rename_i hst
      refine ⟨fun hc => absurd hc hst, fun _ hc => ?_⟩
      simp [hc.1, hc.2] at hj
  | setMac | arpProbe | icmpEchoSend | udpBind | udpOpen | udpSend | udpUnread | tcpListen | tcpWrite
  | tcpRead | tcpClose | tcpTakeEvent | tcpFree | onFrame | poll | newQueue | clearQueue => trivial

/-- The same, where the condition is met. -/
def nextFree (w : Wired) (op : Op) : Option Wired :=
  if portFree w op then next w op else none

/-- The gateway of a test network says where it is. -/
def gatewayHere : Bytes :=
  List.replicate 6 0xFF ++ List.replicate 6 2 ++ be16 ethertypeArp ++
    [0, 1, 8, 0, 6, 4, 0, 2] ++ List.replicate 6 2 ++ List.replicate 4 20 ++ List.replicate 10 0

/-- A listener on port 80, and a connection to the gateway. -/
theorem demultiplexes_twoSockets : ∃ (w : Wired) (u : TcpSocket), w.1.tcp 1 = some u ∧
    u.localPort = 49152 ∧ u.state = .synSent ∧ w.1.Demuxed := by
  have hexec : (exec nextFree (new (Vector.replicate 4 10) (Vector.replicate 4 20), OutQueue.new)
      [.onFrame gatewayHere 0, .tcpListen 80, .tcpConnect (Vector.replicate 4 20) 7 0]).any
      (fun w => (w.1.tcp 1).any fun u => u.localPort == 49152 && u.state == .synSent) = true := by
    decide +kernel
  obtain ⟨w, hw, hp⟩ := exec_any _ _ _ _ hexec
  obtain ⟨u, hu, ht⟩ := (Option.any_eq_true _ _).mp hp
  simp only [Bool.and_eq_true, beq_iff_eq] at ht
  have hstep (w op w') (h : nextFree w op = some w') : guarded Does PortFree w op w' :=
    (Option.ite_none_right_eq_some.mp h).imp portFree_sound next_does
  exact ⟨w, u, hu, ht.1, ht.2, demultiplexes (Run.of_exec hstep hw)⟩

/-- A listener on the first ephemeral port takes the answers to the first connection. -/
theorem listener_shadows_connection : ¬ ∀ (myIp gwIp : Ip4) (ops : List Op) (w : Wired),
    Run Does (new myIp gwIp, OutQueue.new) ops w → w.1.Demuxed := by
  intro hall
  have hexec : (exec next (new (Vector.replicate 4 10) (Vector.replicate 4 20), OutQueue.new)
      [.onFrame gatewayHere 0, .tcpListen 49152, .tcpConnect (Vector.replicate 4 20) 7 0]).any
      (fun w => (w.1.tcp 1).any fun u =>
        u.localPort == 49152 && u.state == .synSent && !u.dead && u.peerIp == Vector.replicate 4 20 &&
          u.peerPort == 7 && w.1.tcpFind 49152 (Vector.replicate 4 20) 7 == some 0) = true := by
    decide +kernel
  obtain ⟨w, hw, hp⟩ := exec_any _ _ _ _ hexec
  obtain ⟨u, hu, ht⟩ := (Option.any_eq_true _ _).mp hp
  simp only [Bool.and_eq_true, beq_iff_eq, Bool.not_eq_true'] at ht
  obtain ⟨⟨⟨⟨⟨hport, hst⟩, hd⟩, hip⟩, hpp⟩, hfind⟩ := ht
  have hdemux := hall _ _ _ w (Run.of_exec (fun _ _ _ => next_does) hw)
  have hown := (hdemux 1 u 49152 (segOf 0 0 0 0 [] u.peerIp u.peerPort macZero) hu (by simp [hst]) hd
    hport rfl rfl).1
  change w.1.tcpFind 49152 u.peerIp u.peerPort = some 1 at hown
  rw [hip, hpp, hfind] at hown
  cases hown

end NetStack

end Net

end Tanix
