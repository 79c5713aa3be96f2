/-
# `Tanix.Net.Tcp` — the TCP socket

`TcpSocket` of `servers/libtanix-net/src/tcp.rs`.  The two fixed buffers with their fill
counts are lists: `out` is the first `out_len` bytes of the send queue, `rx` the first
`rx_len` bytes of the receive buffer.  Sequence numbers are `u32` and wrap.

A socket sends by building a frame in the caller's queue.  Whether the frame found room
is not looked at, so a socket function returns the segments it sends, in order, and the
stack builds their frames.

    rx_segment   one inbound segment: reset, acknowledgement, then by state
    poll         one turn of the sender: retransmission, fresh data, or the FIN
    app_write, app_read, app_close   the application's side
-/
import Tanix.Net.Frame

namespace Tanix

namespace Net

/-! ## Sizes and flags -/

/-- `RX_BUF` -/
abbrev rxBuf : Nat := 512

/-- `TX_BUF` -/
abbrev txBuf : Nat := 512

/-- `TCP_MSS` -/
abbrev tcpMss : Nat := 512

/-- `WINDOW` -/
def window : UInt16 := 1024

/-- `RTO_TICKS` -/
abbrev rtoTicks : Nat := 800

/-- `MAX_RETRIES` -/
abbrev maxRetries : Nat := 8

def flagFin : UInt8 := 0x01
def flagSyn : UInt8 := 0x02
def flagRst : UInt8 := 0x04
def flagPsh : UInt8 := 0x08
def flagAck : UInt8 := 0x10

/-! ## Sequence numbers -/

/-- `seq_lt`: the difference, as a signed number, is negative. -/
def seqLt (a b : UInt32) : Bool :=
  decide ((a - b).toInt32 < 0)

/-- `seq_gt` -/
def seqGt (a b : UInt32) : Bool :=
  seqLt b a

/-- `seq_ge` -/
def seqGe (a b : UInt32) : Bool :=
  a == b || seqGt a b

/-- `gen_iss` -/
def genIss (port : UInt16) (now : Nat) : UInt32 :=
  (UInt32.ofNat now * (2654435761 : UInt32)) ^^^ (port.toUInt32 <<< 16 ||| port.toUInt32)

/-! ## The socket -/

inductive TcpState where
  | listen
  | synSent
  | synRcvd
  | established
  | closeWait
  deriving DecidableEq, Repr

/-- The pending events, `N_ACCEPTED` to `N_CLOSED`. -/
structure Notify where
  accepted : Bool
  data : Bool
  peerFin : Bool
  closed : Bool
  deriving DecidableEq

/-- An inbound segment. -/
structure TcpSeg where
  seq : UInt32
  ack : UInt32
  syn : Bool
  ackFlag : Bool
  fin : Bool
  rst : Bool
  window : UInt16
  payload : Bytes
  peerIp : Ip4
  peerPort : UInt16
  peerMac : Mac
  deriving DecidableEq

/-- The sequence number of the segment's FIN. -/
def TcpSeg.finSeq (g : TcpSeg) : UInt32 :=
  g.seq + UInt32.ofNat g.payload.length

structure TcpSocket where
  state : TcpState
  localPort : UInt16
  peerIp : Ip4
  peerPort : UInt16
  peerMac : Mac
  iss : UInt32
  /-- sequence number of the first byte of `out` -/
  dataBase : UInt32
  /-- sequence number of the next fresh byte or FIN -/
  sndNxt : UInt32
  /-- bytes of `out` already sent -/
  sent : Nat
  /-- bytes of `out` in the outstanding segment -/
  inflight : Nat
  rcvNxt : UInt32
  peerWnd : Nat
  synAcked : Bool
  finReq : Bool
  finSent : Bool
  finSeq : UInt32
  finAcked : Bool
  rxFin : Bool
  out : Bytes
  rx : Bytes
  rtoDeadline : Nat
  retries : Nat
  notify : Notify
  /-- reset, given up, or both FINs acknowledged -/
  dead : Bool
  deriving DecidableEq

def macZero : Mac := Vector.replicate 6 0

def ipZero : Ip4 := Vector.replicate 4 0

namespace TcpSocket

/-- `blank` -/
def blank (port : UInt16) : TcpSocket where
  state := .listen
  localPort := port
  peerIp := ipZero
  peerPort := 0
  peerMac := macZero
  iss := 0
  dataBase := 0
  sndNxt := 0
  sent := 0
  inflight := 0
  rcvNxt := 0
  peerWnd := 4096
  synAcked := false
  finReq := false
  finSent := false
  finSeq := 0
  finAcked := false
  rxFin := false
  out := []
  rx := []
  rtoDeadline := 0
  retries := 0
  notify := ⟨false, false, false, false⟩
  dead := false

/-- `TcpSocket::listen` -/
def listen (port : UInt16) : TcpSocket :=
  blank port

/-- `TcpSocket::connect` -/
def connect (dstIp : Ip4) (dstPort srcPort : UInt16) (now : Nat) : Except Fault TcpSocket := do
  let deadline ← addBits 64 now rtoTicks
  return { blank srcPort with
    state := .synSent
    peerIp := dstIp
    peerPort := dstPort
    iss := genIss srcPort now
    sndNxt := genIss srcPort now + 1
    dataBase := genIss srcPort now + 1
    rtoDeadline := deadline }

/-! ## The application's side -/

variable (s : TcpSocket)

/-- `take_notify`: the first pending event is cleared. -/
def takeNotify : TcpSocket :=
  if s.notify.accepted then { s with notify := { s.notify with accepted := false } }
  else if s.notify.data then { s with notify := { s.notify with data := false } }
  else if s.notify.peerFin then { s with notify := { s.notify with peerFin := false } }
  else { s with notify := { s.notify with closed := false } }

/-- `app_write`: refused as a whole when there is no room. -/
def appWrite (data : Bytes) : TcpSocket × Bool :=
  if s.state ≠ .established ∧ s.state ≠ .closeWait then (s, false)
  else if txBuf < s.out.length + data.length then (s, false)
  else
    ({ s with
        out := s.out ++ data
        sndNxt := s.dataBase + UInt32.ofNat (s.out.length + data.length) }, true)

/-- `app_read`, into a buffer of `n` bytes -/
def appRead (n : Nat) : TcpSocket × Bytes :=
  ({ s with rx := s.rx.drop n }, s.rx.take n)

/-- `app_close` -/
def appClose : TcpSocket :=
  { s with finReq := true }

/-! ## Segments sent -/

variable (mac : Mac) (ack : UInt32)

/-- `push_tcp`, to the socket's peer at the given addresses -/
def pushTcp (ip : Ip4) (seq ack : UInt32) (flags : UInt8) (wnd : UInt16) (payload : Bytes) :
    TcpOut :=
  ⟨mac, ip, s.localPort, s.peerPort, seq, ack, flags, wnd, payload⟩

/-- `send_syn` -/
def sendSyn (ip : Ip4) : TcpOut :=
  s.pushTcp mac ip s.iss 0 flagSyn window []

/-- `send_syn_ack` -/
def sendSynAck (ip : Ip4) : TcpOut :=
  s.pushTcp mac ip s.iss s.rcvNxt (flagSyn ||| flagAck) window []

/-- `send_ack` -/
def sendAck (ip : Ip4) : TcpOut :=
  s.pushTcp mac ip s.sndNxt s.rcvNxt flagAck window []

/-- `send_data_seg` -/
def sendDataSeg (ip : Ip4) (seq : UInt32) (data : Bytes) : TcpOut :=
  s.pushTcp mac ip seq s.rcvNxt (flagAck ||| flagPsh) window data

/-- `send_fin` -/
def sendFin (ip : Ip4) (seq : UInt32) : TcpOut :=
  s.pushTcp mac ip seq s.rcvNxt (flagFin ||| flagAck) window []

/-! ## Inbound -/

/-- The socket is finished, and says so. -/
def close : TcpSocket :=
  { s with dead := true, notify := { s.notify with closed := true } }

/-- The first part of `rx_ack`: the acknowledged front of the queue goes. -/
def consume : Except Fault TcpSocket := do
  let adv := min (ack - s.dataBase).toNat s.sent
  if 0 < adv then
    let rest ← slice s.out adv s.out.length
    let base := s.dataBase + UInt32.ofNat adv
    let nxt := base + UInt32.ofNat rest.length
    return { s with
      out := rest
      dataBase := if rest.length = 0 then nxt else base
      sndNxt := nxt
      sent := s.sent - adv
      inflight := s.inflight - adv }
  else return s

/-- The second part: the SYN is acknowledged. -/
def ackSyn : TcpSocket :=
  if !s.synAcked && (s.state == .synSent || s.state == .synRcvd) && ack == s.sndNxt then
    { s with synAcked := true, rtoDeadline := 0 }
  else s

/-- The third part: the FIN is acknowledged. -/
def ackFin : TcpSocket :=
  if s.finSent && seqGt ack s.finSeq && !s.finAcked then
    if s.rxFin then { s with finAcked := true }.close else { s with finAcked := true }
  else s

/-- `rx_ack` -/
def rxAck : Except Fault TcpSocket := do
  let s ← s.consume ack
  return (s.ackSyn ack).ackFin ack

variable (g : TcpSeg)

/-- `rx_syn`: a SYN on a listening socket -/
def rxSyn (now : Nat) : Except Fault (TcpSocket × List TcpOut) := do
  let deadline ← addBits 64 now rtoTicks
  let iss := genIss s.localPort now
  let s := { s with
    iss := iss
    sndNxt := iss + 1
    dataBase := iss + 1
    peerIp := g.peerIp
    peerPort := g.peerPort
    peerMac := g.peerMac
    rcvNxt := g.seq + 1
    state := .synRcvd
    synAcked := false
    out := []
    sent := 0
    inflight := 0
    rx := []
    finReq := false
    finSent := false
    finAcked := false
    rxFin := false
    retries := 0
    rtoDeadline := deadline }
  return (s, [s.sendSynAck g.peerMac g.peerIp])

/-- `rx_synack`: a SYN while connecting -/
def rxSynack : TcpSocket × List TcpOut :=
  if !(g.ackFlag && g.ack == s.iss + 1) then ({ s with rcvNxt := g.seq + 1 }, [])
  else
    let s := { s with rcvNxt := g.seq + 1, synAcked := true, rtoDeadline := 0 }
    (s, [s.sendAck g.peerMac g.peerIp])

/-- `rx_data`: in order, or a duplicate acknowledgement -/
def rxData : Except Fault (TcpSocket × List TcpOut) := do
  if g.seq = s.rcvNxt then
    let room ← subUsize rxBuf s.rx.length
    -- all of the payload is acknowledged, also what finds no room
    let s := { s with
      rx := s.rx ++ g.payload.take (min g.payload.length room)
      rcvNxt := s.rcvNxt + UInt32.ofNat g.payload.length
      notify := { s.notify with data := true } }
    return (s, [s.sendAck g.peerMac g.peerIp])
  else return (s, [s.sendAck g.peerMac g.peerIp])

/-- The change of `rx_fin`, when the FIN is not an old one. -/
def takeFin (finSeq : UInt32) (synPhase : Bool) : TcpSocket :=
  let s := { s with
    rcvNxt := finSeq + 1
    rxFin := true
    notify := { s.notify with peerFin := true }
    state := if s.state = .established ∧ synPhase = false then .closeWait else s.state }
  if s.finSent && s.finAcked then s.close else s

/-- `rx_fin` -/
def rxFinSeg (synPhase : Bool) : TcpSocket × List TcpOut :=
  let s := if seqGe g.finSeq s.rcvNxt then s.takeFin g.finSeq synPhase else s
  (s, [s.sendAck g.peerMac g.peerIp])

/-- The payload of a segment, if it has one. -/
def rxPayload : Except Fault (TcpSocket × List TcpOut) :=
  if g.payload = [] then .ok (s, []) else s.rxData g

/-- The payload and the FIN of a segment. -/
def rxBody (synPhase : Bool) :
    Except Fault (TcpSocket × List TcpOut) := do
  let (s, os) ← s.rxPayload g
  if g.fin then
    let (s, os') := s.rxFinSeg g synPhase
    return (s, os ++ os')
  else return (s, os)

/-- The handshake is over. -/
def establish : TcpSocket :=
  { s with state := .established, notify := { s.notify with accepted := true } }

/-- `rx_segment`, past the reset and the acknowledgement -/
def rxByState (now : Nat) :
    Except Fault (TcpSocket × List TcpOut) := do
  match s.state with
  | .listen => if g.syn then s.rxSyn g now else return (s.close, [])
  | .synSent =>
    if g.syn then
      let (s, os) := s.rxSynack g
      let s := if s.synAcked then s.establish else s
      let (s, os') ← s.rxBody g true
      return (s, os ++ os')
    else return (s, [])
  | .synRcvd =>
    if g.syn then
      let deadline ← addBits 64 now rtoTicks
      let s := { s with rcvNxt := g.seq + 1, rtoDeadline := deadline, retries := 0 }
      return (s, [s.sendSynAck g.peerMac g.peerIp])
    else if s.synAcked then s.establish.rxBody g true
    else return (s, [])
  | .established | .closeWait =>
    let os := if g.syn then [s.sendAck g.peerMac g.peerIp] else []
    let (s, os') ← s.rxBody g false
    return (s, os ++ os')

/-- The acknowledgement and the window of a segment, if it has the flag. -/
def rxAckField : Except Fault TcpSocket :=
  if g.ackFlag then { s with peerWnd := g.window.toNat }.rxAck g.ack else .ok s

/-- `rx_segment` -/
def rxSegment (now : Nat) :
    Except Fault (TcpSocket × List TcpOut) := do
  if s.dead then return (s, [])
  else if g.rst then return (s.close, [])
  else
    let s ← s.rxAckField g
    s.rxByState g now

/-! ## Outbound -/

/-- A retransmission: one more try, or the end. -/
def retry (now : Nat) (send : TcpSocket → Except Fault (List TcpOut)) :
    Except Fault (TcpSocket × List TcpOut) := do
  let n ← addBits 8 s.retries 1
  let s := { s with retries := n }
  if maxRetries < n then return (s.close, [])
  else
    let os ← send s
    let deadline ← addBits 64 now rtoTicks
    return ({ s with rtoDeadline := deadline }, os)

/-- The outstanding segment once more. -/
def resend : Except Fault (List TcpOut) := do
  let start ← subUsize s.sent s.inflight
  let data ← slice s.out start (start + s.inflight)
  return [s.sendDataSeg s.peerMac s.peerIp (s.dataBase + UInt32.ofNat start) data]

/-- `poll`, past the handshake -/
def pollData (now : Nat) : Except Fault (TcpSocket × List TcpOut) := do
  if 0 < s.inflight then
    if s.rtoDeadline ≤ now then s.retry now resend else return (s, [])
  else if s.sent < s.out.length then
    let chunk := min (min (s.out.length - s.sent) tcpMss) s.peerWnd
    if chunk = 0 then return (s, [])
    else
      let data ← slice s.out s.sent (s.sent + chunk)
      let deadline ← addBits 64 now rtoTicks
      return ({ s with
          sent := s.sent + chunk
          inflight := chunk
          retries := 0
          rtoDeadline := deadline },
        [s.sendDataSeg s.peerMac s.peerIp (s.dataBase + UInt32.ofNat s.sent) data])
  else if s.finReq && !s.finSent then
    let deadline ← addBits 64 now rtoTicks
    return ({ s with finSent := true, finSeq := s.sndNxt, retries := 0, rtoDeadline := deadline },
      [s.sendFin s.peerMac s.peerIp s.sndNxt])
  else if s.finSent && !s.finAcked && decide (s.rtoDeadline ≤ now) then
    s.retry now fun s => .ok [s.sendFin s.peerMac s.peerIp s.finSeq]
  else return (s, [])

/-- `poll` -/
def poll (now : Nat) : Except Fault (TcpSocket × List TcpOut) := do
  if s.dead then return (s, [])
  else if s.peerMac = macZero then return (s, [])
  else if !s.synAcked && (s.state == .synSent || s.state == .synRcvd) then
    if s.rtoDeadline ≤ now then
      s.retry now fun s => .ok
        [if s.state = .synSent then s.sendSyn s.peerMac s.peerIp
          else s.sendSynAck s.peerMac s.peerIp]
    else return (s, [])
  else s.pollData now

end TcpSocket

end Net

end Tanix
