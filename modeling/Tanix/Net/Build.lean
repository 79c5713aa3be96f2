/-
# `Tanix.Net.Build` — building a frame never panics

Every builder reserves its bytes first, and writes only into them.  A queue whose buffer
has its full length (`Sound`) therefore takes any frame: the frame is built, or there is
no room and it is dropped.  Either way the buffer keeps its length.

    sumWords_ok       no carry is lost in the checksum of a frame
    push_ok           reserved bytes lie in the buffer
    pushTcpFrame_ok, pushUdpFrame_ok, pushArp_ok, pushIcmp_ok
-/
import Tanix.Net.Checksum
import Tanix.Lib.Gives

namespace Tanix

open List

namespace Net

/-! ## Checksums -/

/-- The sum of a few words does not leave its 32 bits. -/
theorem sumWords_ok (data : Bytes) (sum : Nat) (h : sum + 65536 * data.length < 2 ^ 32) :
    ∃ n, sumWords data sum = .ok n := by
  have hle := wordSum_le data
  exact ⟨_, sumWords_eq (by omega)⟩

theorem pseudoSeed_lt (src dst : Ip4) (proto : UInt8) (len : UInt16) :
    pseudoSeed src dst proto len < 2 ^ 19 := by
  have h (v : Ip4) (i : Fin 4) : (v.get i).toNat < 256 := (v.get i).toNat_lt
  have h₀ := h src 0
  have h₁ := h src 1
  have h₂ := h src 2
  have h₃ := h src 3
  have h₄ := h dst 0
  have h₅ := h dst 1
  have h₆ := h dst 2
  have h₇ := h dst 3
  have h₈ := proto.toNat_lt
  have h₉ := len.toNat_lt
  unfold pseudoSeed
  omega

theorem slice_gives {b : Bytes} {lo hi : Nat} (hlo : lo ≤ hi) (hhi : hi ≤ b.length) :
    (slice b lo hi).Gives fun s => s.length = hi - lo := by
  have hs : slice b lo hi = .ok ((b.take hi).drop lo) := slice_eq_ok.mpr ⟨⟨hlo, hhi⟩, rfl⟩
  exact ⟨_, hs, slice_length hs⟩

/-- A checksum over a part of the frame finds its place. -/
theorem patchSum_ok {b : Bytes} {lo hi seed pos : Nat} (hlo : lo ≤ hi) (hhi : hi ≤ b.length)
    (hlen : b.length ≤ frameMax) (hseed : seed < 2 ^ 19) (hpos : pos + 2 ≤ b.length) :
    (patchSum b lo hi seed pos).Gives fun b' => b'.length = b.length := by
  refine (slice_gives hlo hhi).bind fun data hdata => ?_
  have hmax : b.length ≤ 1518 := hlen
  obtain ⟨n, hn⟩ := sumWords_ok data seed (by omega)
  rw [checksumSeed, hn]
  exact write_ok hpos

/-! ## The queue -/

/-- The buffer has its full length. -/
def OutQueue.Sound (q : OutQueue) : Prop :=
  q.buf.length = frameMax

theorem OutQueue.sound_new : OutQueue.new.Sound :=
  length_replicate

/-- The bytes that `push` reserves. -/
theorem push_ok {q q' : OutQueue} {len start : Nat} (hq : q.Sound)
    (h : q.push len = some (q', start)) :
    q'.Sound ∧ start + len ≤ frameMax ∧
      (slice q'.buf start (start + len)).Gives fun b => b.length = len := by
  unfold OutQueue.push at h
  split at h
  · cases h
  simp only at h
  split at h
  · cases h
  rename_i hfit
  cases h
  have hfit : q.off ⟨q.n, by omega⟩ + len ≤ frameMax := by omega
  have hin : q.off ⟨q.n, by omega⟩ + len ≤ q.buf.length := by
    rw [hq]
    exact hfit
  refine ⟨hq, hfit, (slice_gives (Nat.le_add_right _ _) hin).mono fun b hb => ?_⟩
  rw [hb, Nat.add_sub_cancel_left]

theorem store_ok {q : OutQueue} {start : Nat} {b : Bytes} (hq : q.Sound)
    (h : start + b.length ≤ frameMax) : (q.store start b).Gives OutQueue.Sound := by
  have hin : start + b.length ≤ q.buf.length := by
    rw [hq]
    exact h
  refine Except.Gives.bind (write_ok hin) fun buf hlen => ?_
  exact .pure (hlen.trans hq)

/-! ## The builders -/

/-- The context after a builder: its queue is sound, and it is the same stack's. -/
def TxCtx.Keeps (ctx ctx' : TxCtx) : Prop :=
  ctx'.q.Sound ∧ ctx'.mac = ctx.mac ∧ ctx'.myIp = ctx.myIp

theorem pushTcpFrame_ok (ctx : TxCtx) (hq : ctx.q.Sound) (o : TcpOut) :
    (pushTcpFrame ctx o).Gives fun r => ctx.Keeps r.1 := by
  unfold pushTcpFrame
  simp only
  split
  · exact .pure ⟨hq, rfl, rfl⟩
  rename_i q start hp
  obtain ⟨hq', hfit, hb⟩ := push_ok hq hp
  refine hb.bind fun b hlen => ?_
  refine Except.Gives.bind (writeAll_ok ?_) fun b₁ h₁ => ?_
  · simp only [forall_mem_cons, not_mem_nil, false_implies, implies_true, and_true,
      be16_length, Vector.length_toList, length_singleton]
    omega
  refine (patchSum_ok (by omega) (by omega) (by omega) (by omega) (by omega)).bind fun b₂ h₂ => ?_
  refine Except.Gives.bind (writeAll_ok ?_) fun b₃ h₃ => ?_
  · simp only [forall_mem_cons, not_mem_nil, false_implies, implies_true, and_true,
      be16_length, be32_length, length_singleton]
    omega
  have hseed := pseudoSeed_lt ctx.myIp o.dstIp ipprotoTcp (UInt16.ofNat (20 + o.payload.length))
  refine (patchSum_ok (by omega) (by omega) (by omega) hseed (by omega)).bind fun b₄ h₄ => ?_
  exact (store_ok hq' (by omega)).bind fun q' hs => .pure ⟨hs, rfl, rfl⟩

theorem pushUdpFrame_ok (ctx : TxCtx) (hq : ctx.q.Sound) (dstMac : Mac) (dstIp : Ip4)
    (srcPort dstPort : UInt16) (payload : Bytes) :
    (pushUdpFrame ctx dstMac dstIp srcPort dstPort payload).Gives fun r => ctx.Keeps r.1 := by
  unfold pushUdpFrame
  simp only
  split
  · exact .pure ⟨hq, rfl, rfl⟩
  rename_i q start hp
  obtain ⟨hq', hfit, hb⟩ := push_ok hq hp
  refine hb.bind fun b hlen => ?_
  refine Except.Gives.bind (writeAll_ok ?_) fun b₁ h₁ => ?_
  · simp only [forall_mem_cons, not_mem_nil, false_implies, implies_true, and_true,
      be16_length, Vector.length_toList, length_singleton]
    omega
  refine (patchSum_ok (by omega) (by omega) (by omega) (by omega) (by omega)).bind fun b₂ h₂ => ?_
  refine Except.Gives.bind (writeAll_ok ?_) fun b₃ h₃ => ?_
  · simp only [forall_mem_cons, not_mem_nil, false_implies, implies_true, and_true, be16_length]
    omega
  have hseed := pseudoSeed_lt ctx.myIp dstIp ipprotoUdp (UInt16.ofNat (8 + payload.length))
  refine (patchSum_ok (by omega) (by omega) (by omega) hseed (by omega)).bind fun b₄ h₄ => ?_
  exact (store_ok hq' (by omega)).bind fun q' hs => .pure ⟨hs, rfl, rfl⟩

theorem pushArp_ok {q : OutQueue} (hq : q.Sound) (mac : Mac) (myIp : Ip4) (op : UInt16)
    {dst target : Bytes} (hdst : dst.length = 6) (htarget : target.length = 6) (targetIp : Ip4) :
    (pushArp q mac myIp op dst target targetIp).Gives fun r => r.1.Sound := by
  unfold pushArp
  split
  · exact .pure hq
  rename_i q' start hp
  obtain ⟨hq', hfit, hb⟩ := push_ok hq hp
  refine hb.bind fun b hlen => ?_
  refine Except.Gives.bind (writeAll_ok ?_) fun b₁ h₁ => ?_
  · simp only [forall_mem_cons, not_mem_nil, false_implies, implies_true, and_true,
      be16_length, Vector.length_toList, length_singleton, hdst, htarget]
    omega
  exact (store_ok hq' (by omega)).bind fun q' hs => .pure hs

/-- The message's own writes stay inside its header. -/
theorem pushIcmp_ok (ctx : TxCtx) (hq : ctx.q.Sound) (dstMac : Mac) (dstIp : Ip4)
    {icmp : List (Nat × Bytes)} (hicmp : ∀ w ∈ icmp, w.1 + w.2.length ≤ 42) (payload : Bytes) :
    (pushIcmp ctx dstMac dstIp icmp payload).Gives fun r => ctx.Keeps r.1 := by
  unfold pushIcmp
  simp only
  split
  · exact .pure ⟨hq, rfl, rfl⟩
  rename_i q start hp
  obtain ⟨hq', hfit, hb⟩ := push_ok hq hp
  refine hb.bind fun b hlen => ?_
  refine Except.Gives.bind (writeAll_ok ?_) fun b₁ h₁ => ?_
  · refine forall_mem_append.mpr ⟨forall_mem_append.mpr ⟨?_, fun w hw => ?_⟩, ?_⟩
    · simp only [forall_mem_cons, not_mem_nil, false_implies, implies_true, and_true,
        be16_length, Vector.length_toList, length_singleton]
      omega
    · have hle := hicmp w hw
      omega
    · exact forall_mem_singleton.mpr (Nat.le_of_eq hlen.symm)
  refine (patchSum_ok (by omega) (by omega) (by omega) (by omega) (by omega)).bind fun b₂ h₂ => ?_
  refine (patchSum_ok (by omega) (by omega) (by omega) (by omega) (by omega)).bind fun b₃ h₃ => ?_
  exact (store_ok hq' (by omega)).bind fun q' hs => .pure ⟨hs, rfl, rfl⟩

end Net

end Tanix
