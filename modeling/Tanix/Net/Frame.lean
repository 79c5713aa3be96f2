/-
# `Tanix.Net.Frame` — frames: queue, checksums, headers

`checksum.rs`, `out.rs`, `ip.rs` and the frame builders of `tcp.rs`, `udp.rs` and
`lib.rs`.  All replies are built in place in the scratch buffer of an `OutQueue`; a
builder reserves its bytes with `push`, and drops the frame when there is no room.

    frame          Ethernet, 14 bytes | IPv4, 20 bytes | TCP 20, UDP 8 or ICMP 8 | payload
    ARP frame      Ethernet, 14 bytes | 28 bytes

The buffer is not cleared between frames: bytes that a builder does not write are those
of an earlier frame.
-/
import Tanix.Net.Buf

namespace Tanix

namespace Net

/-! ## Checksums -/

/-- The words of the buffer added up, big-endian, an odd last byte as the high half of a word. -/
def sumWords : Bytes → Nat → Except Fault Nat
  | [], sum => .ok sum
  | [a], sum => addBits 32 sum (a.toNat * 256)
  | a :: b :: rest, sum => do
      let sum ← addBits 32 sum (a.toNat * 256 + b.toNat)
      sumWords rest sum

/-- The loop that folds the carries in; a 32-bit sum is done after two turns. -/
def foldCarry : Nat → Nat → Nat
  | 0, sum => sum
  | fuel + 1, sum =>
    if sum / 2 ^ 16 ≠ 0 then foldCarry fuel (sum % 2 ^ 16 + sum / 2 ^ 16) else sum

/-- `checksum_seed` -/
def checksumSeed (data : Bytes) (seed : Nat) : Except Fault UInt16 := do
  let sum ← sumWords data seed
  return ~~~ (UInt16.ofNat (foldCarry 3 sum))

/-- `checksum` -/
def checksum (data : Bytes) : Except Fault UInt16 :=
  checksumSeed data 0

/-- `pseudo_seed` -/
def pseudoSeed (src dst : Ip4) (proto : UInt8) (len : UInt16) : Nat :=
  (src.get 0).toNat * 256 + (src.get 1).toNat + ((src.get 2).toNat * 256 + (src.get 3).toNat) +
    ((dst.get 0).toNat * 256 + (dst.get 1).toNat) + ((dst.get 2).toNat * 256 + (dst.get 3).toNat) +
    proto.toNat + len.toNat

/-! ## The queue -/

/-- `FRAME_MAX` -/
abbrev frameMax : Nat := 1518

/-- `MAX_FRAMES` -/
abbrev maxQueued : Nat := 4

structure OutQueue where
  buf : Bytes
  /-- frame `i` is `buf[off i .. off (i + 1)]` -/
  off : Fin (maxQueued + 1) → Nat
  n : Nat

namespace OutQueue

/-- `OutQueue::new` -/
def new : OutQueue :=
  ⟨List.replicate frameMax 0, fun _ => 0, 0⟩

/-- `push`: the start of the bytes reserved. -/
def push (q : OutQueue) (len : Nat) : Option (OutQueue × Nat) :=
  if h : maxQueued ≤ q.n then none
  else
    let start := q.off ⟨q.n, by omega⟩
    if frameMax < start + len then none
    else
      some ({ q with off := Function.update q.off ⟨q.n + 1, by omega⟩ (start + len), n := q.n + 1 },
        start)

/-- `clear` -/
def clear (q : OutQueue) : OutQueue :=
  { q with n := 0, off := Function.update q.off 0 0 }

end OutQueue

/-- What a socket needs to send frames. -/
structure TxCtx where
  mac : Mac
  myIp : Ip4
  ipId : UInt16
  q : OutQueue

/-! ## Constants -/

def ethertypeArp : UInt16 := 0x0806
def ethertypeIpv4 : UInt16 := 0x0800

def ipprotoIcmp : UInt8 := 1
def ipprotoTcp : UInt8 := 6
def ipprotoUdp : UInt8 := 17

/-! ## Parsing -/

/-- `parse_eth`: destination, source and type. -/
def parseEth (frame : Bytes) : Except Fault (Option (Mac × Mac × UInt16)) := do
  if frame.length < 14 then return none
  else
    let dst ← fixed 6 frame 0
    let src ← fixed 6 frame 6
    let etype ← getU16 frame 12
    return some (dst, src, etype)

structure Ip4Hdr where
  src : Ip4
  dst : Ip4
  proto : UInt8
  totalLen : Nat
  /-- where the transport header starts -/
  transport : Nat

/-- `parse_ip4` -/
def parseIp4 (frame : Bytes) : Except Fault (Option Ip4Hdr) := do
  if frame.length < 34 then return none
  else
    let vihl ← byteAt frame 14
    if vihl.toNat / 16 ≠ 4 then return none
    else
      let total ← getU16 frame 16
      if frame.length < 14 + total.toNat then return none
      else
        let ihl := vihl.toNat % 16 * 4
        if ihl < 20 ∨ frame.length < 14 + ihl then return none
        else
          let src ← fixed 4 frame 26
          let dst ← fixed 4 frame 30
          let proto ← byteAt frame 23
          return some ⟨src, dst, proto, total.toNat, 14 + ihl⟩

/-! ## Building -/

/-- Put `b` back in its place in the queue's buffer. -/
def OutQueue.store (q : OutQueue) (start : Nat) (b : Bytes) : Except Fault OutQueue := do
  let buf ← write q.buf start b
  return { q with buf := buf }

/-- Patch a checksum over `b[lo..hi]` into `b[at]`. -/
def patchSum (b : Bytes) (lo hi seed pos : Nat) : Except Fault Bytes := do
  let data ← slice b lo hi
  let sum ← checksumSeed data seed
  write b pos (be16 sum)

/-- The arguments of `push_tcp_frame`: one segment on its way out. -/
structure TcpOut where
  dstMac : Mac
  dstIp : Ip4
  srcPort : UInt16
  dstPort : UInt16
  seq : UInt32
  ack : UInt32
  flags : UInt8
  wnd : UInt16
  payload : Bytes
  deriving DecidableEq

/-- `push_tcp_frame` -/
def pushTcpFrame (ctx : TxCtx) (o : TcpOut) : Except Fault (TxCtx × Bool) := do
  let total := 54 + o.payload.length
  match ctx.q.push total with
  | none => return (ctx, false)
  | some (q, start) =>
    let b ← slice q.buf start (start + total)
    let b ← writeAll b
      [(0, o.dstMac.toList), (6, ctx.mac.toList), (12, be16 ethertypeIpv4),
        (14, [0x45]), (15, [0]), (16, be16 (UInt16.ofNat total - 14)), (18, be16 ctx.ipId),
        (20, [0]), (21, [0]), (22, [64]), (23, [ipprotoTcp]), (24, be16 0),
        (26, ctx.myIp.toList), (30, o.dstIp.toList)]
    let b ← patchSum b 14 34 0 24
    let b ← writeAll b
      [(34, be16 o.srcPort), (36, be16 o.dstPort), (38, be32 o.seq), (42, be32 o.ack),
        (46, [0x50]), (47, [o.flags]), (48, be16 o.wnd), (50, be16 0), (52, be16 0),
        (54, o.payload)]
    let tcpLen := 20 + o.payload.length
    let b ← patchSum b 34 (34 + tcpLen)
      (pseudoSeed ctx.myIp o.dstIp ipprotoTcp (UInt16.ofNat tcpLen)) 50
    let q ← q.store start b
    return ({ ctx with ipId := ctx.ipId + 1, q := q }, true)

/-- `push_udp_frame` -/
def pushUdpFrame (ctx : TxCtx) (dstMac : Mac) (dstIp : Ip4) (srcPort dstPort : UInt16)
    (payload : Bytes) : Except Fault (TxCtx × Bool) := do
  let total := 42 + payload.length
  match ctx.q.push total with
  | none => return (ctx, false)
  | some (q, start) =>
    let b ← slice q.buf start (start + total)
    let b ← writeAll b
      [(0, dstMac.toList), (6, ctx.mac.toList), (12, be16 ethertypeIpv4),
        (14, [0x45]), (15, [0]), (16, be16 (UInt16.ofNat total - 14)), (18, be16 ctx.ipId),
        (20, [0]), (21, [0]), (22, [64]), (23, [ipprotoUdp]), (24, be16 0),
        (26, ctx.myIp.toList), (30, dstIp.toList)]
    let b ← patchSum b 14 34 0 24
    let b ← writeAll b
      [(34, be16 srcPort), (36, be16 dstPort), (38, be16 (UInt16.ofNat total - 34)), (40, be16 0),
        (42, payload)]
    let udpLen := 8 + payload.length
    let b ← patchSum b 34 (34 + udpLen)
      (pseudoSeed ctx.myIp dstIp ipprotoUdp (UInt16.ofNat udpLen)) 40
    let q ← q.store start b
    return ({ ctx with ipId := ctx.ipId + 1, q := q }, true)

/-- The ARP frame of `arp_probe` (`op = 1`) and `arp_reply` (`op = 2`). -/
def pushArp (q : OutQueue) (mac : Mac) (myIp : Ip4) (op : UInt16) (dst target : Bytes)
    (targetIp : Ip4) : Except Fault (OutQueue × Bool) := do
  match q.push 42 with
  | none => return (q, false)
  | some (q, start) =>
    let b ← slice q.buf start (start + 42)
    let b ← writeAll b
      [(0, dst), (6, mac.toList), (12, be16 ethertypeArp), (14, be16 1), (16, be16 0x0800),
        (18, [6]), (19, [4]), (20, be16 op), (22, mac.toList), (28, myIp.toList), (32, target),
        (38, targetIp.toList)]
    let q ← q.store start b
    return (q, true)

/-- The IPv4 frame around an ICMP message, as `icmp_echo_send` and `icmp_reply` build it: type of
service, fragment offset and the two checksum fields are not cleared first. -/
def pushIcmp (ctx : TxCtx) (dstMac : Mac) (dstIp : Ip4) (icmp : List (Nat × Bytes))
    (payload : Bytes) : Except Fault (TxCtx × Bool) := do
  let total := 42 + payload.length
  match ctx.q.push total with
  | none => return (ctx, false)
  | some (q, start) =>
    let b ← slice q.buf start (start + total)
    let b ← writeAll b
      ([(0, dstMac.toList), (6, ctx.mac.toList), (12, be16 ethertypeIpv4), (14, [0x45]),
        (16, be16 (UInt16.ofNat total - 14)), (18, be16 ctx.ipId), (22, [64]),
        (23, [ipprotoIcmp]), (26, ctx.myIp.toList), (30, dstIp.toList)] ++ icmp ++
        [(42, payload)])
    let b ← patchSum b 34 (42 + payload.length) 0 36
    let b ← patchSum b 14 34 0 24
    let q ← q.store start b
    return ({ ctx with ipId := ctx.ipId + 1, q := q }, true)

end Net

end Tanix
