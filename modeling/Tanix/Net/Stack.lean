/-
# `Tanix.Net.Stack` — the network stack

`NetStack` of `servers/libtanix-net/src/lib.rs` and the UDP endpoints of `udp.rs`: the
ARP cache, ICMP echo, the two socket tables, and `on_frame`, which takes a received
frame apart and hands it down.

Every function that can send takes the output queue and gives it back.  `Op` lists what
the net server can do with a stack, and `NetStack.run` does it.
-/
import Tanix.Net.Tcp
import Mathlib.Data.List.FinRange

namespace Tanix

namespace Net

/-- `MAX_TCP`, `MAX_UDP` -/
abbrev maxSockets : Nat := 4

/-- `ARP_CACHE_MAX` -/
abbrev arpCacheMax : Nat := 8

/-- `UDP_BUF` -/
abbrev udpBuf : Nat := 256

/-- A UDP endpoint; `rx` is the first `rx_len` bytes of its buffer. -/
structure UdpEp where
  port : UInt16
  rx : Bytes
  peerIp : Ip4
  peerPort : UInt16
  pending : Bool

/-- `UdpEp::bind` -/
def UdpEp.bind (port : UInt16) : UdpEp :=
  ⟨port, [], ipZero, 0, false⟩

/-- `deliver`: an unread datagram is overwritten. -/
def UdpEp.deliver (e : UdpEp) (peerIp : Ip4) (peerPort : UInt16) (data : Bytes) : UdpEp :=
  { e with
    peerIp := peerIp
    peerPort := peerPort
    rx := data.take (min data.length udpBuf)
    pending := true }

/-- `unread`, into a buffer of `n` bytes -/
def UdpEp.unread (e : UdpEp) (n : Nat) : UdpEp × Bytes :=
  ({ e with rx := [], pending := false }, e.rx.take n)

structure NetStack where
  mac : Mac
  myIp : Ip4
  gwIp : Ip4
  gwMac : Option Mac
  ipId : UInt16
  tcp : Fin maxSockets → Option TcpSocket
  udp : Fin maxSockets → Option UdpEp
  cache : Fin arpCacheMax → Ip4 × Mac
  cacheN : Nat
  ephemeral : UInt16
  pingId : UInt16
  pingSeq : UInt16
  pongId : UInt16
  pongSeq : UInt16

/-- A stack and the queue it sends into. -/
abbrev Wired := NetStack × OutQueue

namespace NetStack

/-- `NetStack::new` -/
def new (myIp gwIp : Ip4) : NetStack where
  mac := macZero
  myIp := myIp
  gwIp := gwIp
  gwMac := none
  ipId := 0x1234
  tcp := fun _ => none
  udp := fun _ => none
  cache := fun _ => (ipZero, macZero)
  cacheN := 0
  ephemeral := 49152
  pingId := 0x1234
  pingSeq := 0
  pongId := 0
  pongSeq := 0

/-! ## The ARP cache -/

variable (st : NetStack)

/-- `cache_add`: all eight entries are searched, used or not. -/
def cacheAdd (ip : Ip4) (mac : Mac) : NetStack :=
  if mac = macZero then st
  else
    match (List.finRange arpCacheMax).find? fun i => (st.cache i).1 == ip with
    | some i => { st with cache := Function.update st.cache i ((st.cache i).1, mac) }
    | none =>
      if h : st.cacheN < arpCacheMax then
        { st with
          cache := Function.update st.cache ⟨st.cacheN, h⟩ (ip, mac)
          cacheN := st.cacheN + 1 }
      else { st with cache := Function.update st.cache 0 (ip, mac) }

/-- `cache_get` -/
def cacheGet (ip : Ip4) : Except Fault (Option Mac) :=
  if ip = st.gwIp then .ok st.gwMac
  else if arpCacheMax < st.cacheN then .error .index
  else
    .ok ((((List.finRange arpCacheMax).take st.cacheN).find? fun i => (st.cache i).1 == ip).map
      fun i => (st.cache i).2)

/-- `dst_mac` -/
def dstMac (ip : Ip4) : Except Fault (Option Mac) :=
  st.cacheGet ip

variable (q : OutQueue)

/-- The context handed to a socket. -/
def ctx : TxCtx :=
  ⟨st.mac, st.myIp, st.ipId, q⟩

/-- Take the identification counter and the queue back from a context. -/
def absorb (ctx : TxCtx) : Wired :=
  ({ st with ipId := ctx.ipId }, ctx.q)

/-! ## ARP -/

/-- `arp_probe` -/
def arpProbe : Except Fault (OutQueue × Bool) :=
  pushArp q st.mac st.myIp 1 (List.replicate 6 0xFF) (List.replicate 6 0) st.gwIp

/-- `arp_reply` -/
def arpReply (dstMac targetMac : Mac) (targetIp : Ip4) : Except Fault (OutQueue × Bool) :=
  pushArp q st.mac st.myIp 2 dstMac.toList targetMac.toList targetIp

/-- `handle_arp` -/
def handleArp (frame : Bytes) (q : OutQueue) : Except Fault Wired := do
  match ← parseEth frame with
  | none => return (st, q)
  | some (_, srcMac, _) =>
    if frame.length < 42 then return (st, q)
    else
      let hw ← getU16 frame 14
      let proto ← getU16 frame 16
      let hwLen ← byteAt frame 18
      let protoLen ← byteAt frame 19
      if hw ≠ 1 ∨ proto ≠ 0x0800 ∨ hwLen ≠ 6 ∨ protoLen ≠ 4 then return (st, q)
      else
        let senderMac ← fixed 6 frame 22
        let senderIp ← fixed 4 frame 28
        let targetIp ← fixed 4 frame 38
        let st := st.cacheAdd senderIp senderMac
        let op ← getU16 frame 20
        if op = 1 ∧ targetIp = st.myIp then
          let (q, _) ← st.arpReply q srcMac senderMac senderIp
          return (st, q)
        else if op = 2 ∧ senderIp = st.gwIp then
          return ({ st with gwMac := some senderMac }, q)
        else return (st, q)

/-! ## ICMP -/

/-- The letters that `icmp_echo_send` sends. -/
def echoPayload : Bytes :=
  (List.range 16).map fun i => 97 + UInt8.ofNat (i % 26)

/-- `icmp_echo_send` -/
def icmpEchoSend (dstIp : Ip4) (q : OutQueue) : Except Fault (Wired × Bool) := do
  match ← st.dstMac dstIp with
  | none => return ((st, q), false)
  | some mac =>
    let (ctx, sent) ← pushIcmp (st.ctx q) mac dstIp
      [(34, [8]), (38, be16 st.pingId), (40, be16 st.pingSeq)] echoPayload
    if sent then return (({ st with pingSeq := st.pingSeq + 1 }.absorb ctx), true)
    else return (st.absorb ctx, false)

/-- `icmp_reply` -/
def icmpReply (peerMac : Mac) (peerIp : Ip4) (icmp : Bytes) :
    Except Fault Wired := do
  if icmp.length < 8 then return (st, q)
  else
    let payloadLen := min (icmp.length - 8) 64
    let idSeq ← slice icmp 4 8
    let payload ← slice icmp 8 (8 + payloadLen)
    let (ctx, _) ← pushIcmp (st.ctx q) peerMac peerIp [(34, [0]), (35, [0]), (38, idSeq)] payload
    return st.absorb ctx

/-! ## UDP endpoints -/

/-- `udp_bind` -/
def udpBind (port : UInt16) : NetStack × Option (Fin maxSockets) :=
  if (List.finRange maxSockets).any fun i => (st.udp i).any (·.port == port) then (st, none)
  else
    match (List.finRange maxSockets).find? fun i => (st.udp i).isNone with
    | none => (st, none)
    | some i => ({ st with udp := Function.update st.udp i (some (UdpEp.bind port)) }, some i)

/-- `udp_open` -/
def udpOpen : NetStack × Option (Fin maxSockets) :=
  { st with ephemeral := st.ephemeral + 1 }.udpBind st.ephemeral

variable (i : Fin maxSockets)

/-- `udp_send` -/
def udpSend (dstIp : Ip4) (dstPort : UInt16) (payload : Bytes) (q : OutQueue) :
    Except Fault (Wired × Bool) := do
  match st.udp i with
  | none => return ((st, q), false)
  | some e =>
    match ← st.dstMac dstIp with
    | none => return ((st, q), false)
    | some mac =>
      let (ctx, sent) ← pushUdpFrame (st.ctx q) mac dstIp e.port dstPort payload
      return (st.absorb ctx, sent)

/-! ## TCP sockets -/

/-- `tcp_listen` -/
def tcpListen (port : UInt16) : NetStack × Option (Fin maxSockets) :=
  if (List.finRange maxSockets).any fun i =>
      (st.tcp i).any fun s => s.localPort == port && s.state != .listen then (st, none)
  else
    match (List.finRange maxSockets).find? fun i => (st.tcp i).isNone with
    | none => (st, none)
    | some i => ({ st with tcp := Function.update st.tcp i (some (TcpSocket.listen port)) }, some i)

/-- Build the frames of the segments a socket has sent. -/
def emit (ctx : TxCtx) (os : List TcpOut) : Except Fault TxCtx :=
  os.foldlM (fun ctx o => (pushTcpFrame ctx o).map Prod.fst) ctx

variable (now : Nat)

/-- `tcp_connect` -/
def tcpConnect (dstIp : Ip4) (dstPort : UInt16) (now : Nat) (q : OutQueue) :
    Except Fault (Wired × Option (Fin maxSockets)) := do
  match ← st.dstMac dstIp with
  | none => return ((st, q), none)
  | some mac =>
    match (List.finRange maxSockets).find? fun i => (st.tcp i).isNone with
    | none => return ((st, q), none)
    | some i =>
      let sock ← TcpSocket.connect dstIp dstPort st.ephemeral now
      let sock := { sock with peerMac := mac }
      let ctx ← emit (st.ctx q) [sock.sendSyn mac dstIp]
      let st := { st with
        ephemeral := st.ephemeral + 1
        tcp := Function.update st.tcp i (some sock) }
      return (st.absorb ctx, some i)

/-- An operation of the application on one socket, where there is one. -/
def onSocket (f : TcpSocket → TcpSocket) : NetStack :=
  { st with tcp := Function.update st.tcp i ((st.tcp i).map f) }

/-- `tcp_free` -/
def tcpFree : NetStack :=
  { st with tcp := Function.update st.tcp i none }

/-- The test of `tcp_find`. -/
def matchesSeg (dport : UInt16) (srcIp : Ip4) (sport : UInt16) (s : TcpSocket) : Bool :=
  !(s.localPort != dport || s.dead) &&
    (s.state == .listen || (s.peerIp == srcIp && s.peerPort == sport))

/-- `tcp_find` -/
def tcpFind (dport : UInt16) (srcIp : Ip4) (sport : UInt16) : Option (Fin maxSockets) :=
  (List.finRange maxSockets).find? fun i => (st.tcp i).any (matchesSeg dport srcIp sport)

/-! ## Received frames -/

/-- `handle_icmp` -/
def handleIcmp (seg : Bytes) (srcMac : Mac) (srcIp : Ip4) (q : OutQueue) :
    Except Fault Wired := do
  if seg.length < 8 then return (st, q)
  else
    let kind ← byteAt seg 0
    if kind = 0 then
      let id ← getU16 seg 4
      let seq ← getU16 seg 6
      return ({ st with pongId := id, pongSeq := seq }, q)
    else if kind = 8 then st.icmpReply q srcMac srcIp seg
    else return (st, q)

/-- `handle_udp` -/
def handleUdp (seg : Bytes) (srcIp : Ip4) : Except Fault NetStack := do
  if seg.length < 8 then return st
  else
    let sport ← getU16 seg 0
    let dport ← getU16 seg 2
    let len ← getU16 seg 4
    let data ← slice seg 8 (min len.toNat seg.length)
    return { st with
      udp := fun i => (st.udp i).map fun e =>
        if e.port = dport then e.deliver srcIp sport data else e }

/-- The header fields and the payload of a TCP segment. -/
def segOf (seq ack : UInt32) (flags : UInt8) (wnd : UInt16) (payload : Bytes) (peerIp : Ip4)
    (peerPort : UInt16) (peerMac : Mac) : TcpSeg where
  seq := seq
  ack := ack
  syn := flags &&& flagSyn != 0
  ackFlag := flags &&& flagAck != 0
  fin := flags &&& flagFin != 0
  rst := flags &&& flagRst != 0
  window := wnd
  payload := payload
  peerIp := peerIp
  peerPort := peerPort
  peerMac := peerMac

/-- The reset that answers a SYN to a port where nobody is. -/
def refusal (dport : UInt16) (g : TcpSeg) : TcpOut :=
  ⟨g.peerMac, g.peerIp, dport, g.peerPort, 0, g.seq + UInt32.ofNat (1 + g.payload.length),
    flagRst ||| flagAck, 0, []⟩

/-- `handle_tcp`, past the parsing -/
def deliverTcp (dport : UInt16) (g : TcpSeg) (now : Nat) (q : OutQueue) :
    Except Fault Wired := do
  match st.tcpFind dport g.peerIp g.peerPort with
  | none =>
    if g.syn then
      let ctx ← emit (st.ctx q) [refusal dport g]
      return st.absorb ctx
    else return (st, q)
  | some i =>
    match st.tcp i with
    | none => return (st, q)
    | some s =>
      let (s, os) ← s.rxSegment g now
      let ctx ← emit (st.ctx q) os
      return { st with tcp := Function.update st.tcp i (some s) }.absorb ctx

/-- `handle_tcp` -/
def handleTcp (seg : Bytes) (srcIp : Ip4) (srcMac : Mac) (now : Nat) (q : OutQueue) :
    Except Fault Wired := do
  if seg.length < 20 then return (st, q)
  else
    let sport ← getU16 seg 0
    let dport ← getU16 seg 2
    let seq ← getU32 seg 4
    let ack ← getU32 seg 8
    let offFlags ← byteAt seg 12
    let off := offFlags.toNat / 16 * 4
    let flags ← byteAt seg 13
    let wnd ← getU16 seg 14
    if off < 20 ∨ seg.length < off then return (st, q)
    else
      let payload ← slice seg off seg.length
      st.deliverTcp dport (segOf seq ack flags wnd payload srcIp sport srcMac) now q

/-- `handle_ip4` -/
def handleIp4 (frame : Bytes) (srcMac : Mac) (now : Nat) (q : OutQueue) :
    Except Fault Wired := do
  match ← parseIp4 frame with
  | none => return (st, q)
  | some hdr =>
    if hdr.dst ≠ st.myIp then return (st, q)
    else
      let st := st.cacheAdd hdr.src srcMac
      let payload ← slice frame hdr.transport (min frame.length (14 + hdr.totalLen))
      if hdr.proto = ipprotoIcmp then st.handleIcmp payload srcMac hdr.src q
      else if hdr.proto = ipprotoUdp then
        let st ← st.handleUdp payload hdr.src
        return (st, q)
      else if hdr.proto = ipprotoTcp then st.handleTcp payload hdr.src srcMac now q
      else return (st, q)

/-- `on_frame` -/
def onFrame (frame : Bytes) (now : Nat) (q : OutQueue) : Except Fault Wired := do
  match ← parseEth frame with
  | none => return (st, q)
  | some (dst, srcMac, etype) =>
    if dst ≠ st.mac ∧ dst ≠ Vector.replicate 6 0xFF then return (st, q)
    else if etype = ethertypeArp then st.handleArp frame q
    else if etype = ethertypeIpv4 then st.handleIp4 frame srcMac now q
    else return (st, q)

/-! ## Polling -/

/-- One turn of the loop of `poll`. -/
def pollOne (w : Wired) (i : Fin maxSockets) : Except Fault Wired := do
  match w.1.tcp i with
  | none => return w
  | some s =>
    let (s, os) ← s.poll now
    let ctx ← emit (w.1.ctx w.2) os
    return { w.1 with tcp := Function.update w.1.tcp i (some s) }.absorb ctx

/-- `poll` -/
def poll (q : OutQueue) : Except Fault Wired :=
  (List.finRange maxSockets).foldlM (pollOne now) (st, q)

end NetStack

/-! ## What the server can do with a stack -/

inductive Op where
  | setMac (mac : Mac)
  | arpProbe
  | icmpEchoSend (dst : Ip4)
  | udpBind (port : UInt16)
  | udpOpen
  | udpSend (i : Fin maxSockets) (dst : Ip4) (port : UInt16) (payload : Bytes)
  | udpUnread (i : Fin maxSockets) (n : Nat)
  | tcpListen (port : UInt16)
  | tcpConnect (dst : Ip4) (port : UInt16) (now : Nat)
  | tcpWrite (i : Fin maxSockets) (data : Bytes)
  | tcpRead (i : Fin maxSockets) (n : Nat)
  | tcpClose (i : Fin maxSockets)
  | tcpTakeEvent (i : Fin maxSockets)
  | tcpFree (i : Fin maxSockets)
  | onFrame (frame : Bytes) (now : Nat)
  | poll (now : Nat)
  /-- a new queue, as in every round of the server -/
  | newQueue
  /-- the queue has been flushed -/
  | clearQueue

/-- One operation. -/
def NetStack.run (w : Wired) : Op → Except Fault Wired
  | .setMac mac => .ok ({ w.1 with mac := mac }, w.2)
  | .arpProbe => (w.1.arpProbe w.2).map fun r => (w.1, r.1)
  | .icmpEchoSend dst => (w.1.icmpEchoSend dst w.2).map Prod.fst
  | .udpBind port => .ok ((w.1.udpBind port).1, w.2)
  | .udpOpen => .ok (w.1.udpOpen.1, w.2)
  | .udpSend i dst port payload => (w.1.udpSend i dst port payload w.2).map Prod.fst
  | .udpUnread i n =>
    .ok ({ w.1 with
      udp := Function.update w.1.udp i ((w.1.udp i).map fun e => (e.unread n).1) }, w.2)
  | .tcpListen port => .ok ((w.1.tcpListen port).1, w.2)
  | .tcpConnect dst port now => (w.1.tcpConnect dst port now w.2).map Prod.fst
  | .tcpWrite i data => .ok (w.1.onSocket i fun s => (s.appWrite data).1, w.2)
  | .tcpRead i n => .ok (w.1.onSocket i fun s => (s.appRead n).1, w.2)
  | .tcpClose i => .ok (w.1.onSocket i TcpSocket.appClose, w.2)
  | .tcpTakeEvent i => .ok (w.1.onSocket i TcpSocket.takeNotify, w.2)
  | .tcpFree i => .ok (w.1.tcpFree i, w.2)
  | .onFrame frame now => w.1.onFrame frame now w.2
  | .poll now => w.1.poll now w.2
  | .newQueue => .ok (w.1, OutQueue.new)
  | .clearQueue => .ok (w.1, w.2.clear)

/-- A step that does not panic. -/
def NetStack.Does (w : Wired) (op : Op) (w' : Wired) : Prop :=
  NetStack.run w op = .ok w'

end Net

end Tanix
