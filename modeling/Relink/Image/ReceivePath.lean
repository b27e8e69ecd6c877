import Relink.Image.Reassembler
import Relink.Library.Run
import Relink.Transport.Receive

/-! Memory safety of the image receive path.

A node subscribes topics to images and receives datagrams. `decodeFrame` checks a
frame's length against its own header and nothing else, the handlers check the
chunk's length against the frame's, and the reassemblers copy that many bytes into
a slot sized by the sender's budget: nothing between the socket and the copy bounds
a chunk by its slot. With every accepted payload inside the budget the path never
leaves its buffers (`receive_safe`); one payload beyond it does (`oversized_faults`). -/
namespace Relink.Image
open LittleEndian Wire Transport

/-- A topic's raw handler, with the reassembler it closes over. -/
inductive Handler where
  | image (s : ImageReassembler)
  | compressedImage (s : CompressedImageReassembler)

/-- A completion callback, if the chunk completed a frame. -/
inductive Callback where
  | image (c : Option (Completed Unit))
  | compressedImage (c : Option (Completed CaptureStamp))

def Handler.call : Handler → Bytes → Except Buffer.Fault (Handler × Callback)
  | .image s, payload => match subscribeImageHandler s payload with
    | .error e => .error e
    | .ok (s', c) => .ok (.image s', .image c)
  | .compressedImage s, payload => match subscribeCompressedImageHandler s payload with
    | .error e => .error e
    | .ok (s', c) => .ok (.compressedImage s', .compressedImage c)

inductive Subscription where
  | image
  | compressedImage
deriving DecidableEq, Repr

def Subscription.handler : Subscription → Handler
  | .image => .image .init
  | .compressedImage => .compressedImage .init

/-- `subscribe_image` or `subscribe_compressed_image` on a topic. -/
def subscribe (t : UdpTransport Handler) (s : UInt32 × Subscription) : UdpTransport Handler :=
  setTopicHandler t s.1 s.2.handler

/-- A node's transport after its subscriptions, before any datagram. -/
def subscribed (relayDedup : Bool) (subs : List (UInt32 × Subscription)) : UdpTransport Handler :=
  subs.foldl subscribe {relayDedupEnabled := relayDedup}

def receive (t : UdpTransport Handler) (datagram : Bytes) :
    Except Buffer.Fault (UdpTransport Handler) :=
  (recvAndDispatch Handler.call t datagram).map Prod.fst

/-- A datagram the decoder rejects, or a frame of at most `limit` payload bytes. -/
def PayloadAtMost (limit : Nat) (datagram : Bytes) : Prop :=
  ∀ f, decodeFrame datagram = .ok f → f.payload.length ≤ limit

/-! ### Inside the budget -/

def Handler.Safe : Handler → Prop
  | .image s => Bounded kImageChunkDataBytes s
  | .compressedImage s => Bounded kCompressedImageChunkDataBytes s

def Safe (t : UdpTransport Handler) : Prop :=
  ∀ (topic : UInt32) (h : Handler), t.handlers[topic]? = some h → h.Safe

theorem subscribeImageHandler_safe {s : ImageReassembler} (h : Bounded kImageChunkDataBytes s)
    (payload : Bytes) (hp : payload.length ≤ kMaxPayloadBytes) :
    ∃ r, subscribeImageHandler s payload = .ok r ∧ Bounded kImageChunkDataBytes r.1 := by
  unfold subscribeImageHandler
  split
  · exact ⟨_, rfl, h⟩
  · simp only
    split
    · exact ⟨_, rfl, h⟩
    · rename_i hlen
      have hbytes : (readU16 8 payload).toNat = payload.length - kImageChunkHeaderBytes := by
        simpa using hlen
      apply chunkRaw_bounded h
      · rw [hbytes, List.length_drop]
      · rw [hbytes]
        exact Nat.sub_le_sub_right hp _

theorem subscribeCompressedImageHandler_safe {s : CompressedImageReassembler}
    (h : Bounded kCompressedImageChunkDataBytes s) (payload : Bytes)
    (hp : payload.length ≤ kMaxPayloadBytes) :
    ∃ r, subscribeCompressedImageHandler s payload = .ok r ∧
      Bounded kCompressedImageChunkDataBytes r.1 := by
  unfold subscribeCompressedImageHandler
  split
  · exact ⟨_, rfl, h⟩
  · simp only
    split
    · exact ⟨_, rfl, h⟩
    · rename_i hlen
      have hbytes : (readU16 8 payload).toNat =
          payload.length - kCompressedImageChunkHeaderBytes := by
        simpa using hlen
      apply chunkRaw_bounded h
      · rw [hbytes, List.length_drop]
      · rw [hbytes]
        exact Nat.sub_le_sub_right hp _

theorem call_safe {h : Handler} (hs : h.Safe) (payload : Bytes)
    (hp : payload.length ≤ kMaxPayloadBytes) :
    ∃ r, h.call payload = .ok r ∧ r.1.Safe := by
  cases h with
  | image s =>
    obtain ⟨⟨s', c⟩, hr, hb⟩ := subscribeImageHandler_safe hs payload hp
    exact ⟨(.image s', .image c), by simp only [Handler.call, hr], hb⟩
  | compressedImage s =>
    obtain ⟨⟨s', c⟩, hr, hb⟩ := subscribeCompressedImageHandler_safe hs payload hp
    exact ⟨(.compressedImage s', .compressedImage c), by simp only [Handler.call, hr], hb⟩

theorem subscribe_safe {t : UdpTransport Handler} (h : Safe t) (s : UInt32 × Subscription) :
    Safe (subscribe t s) := by
  intro topic hd hget
  simp only [subscribe, setTopicHandler, Std.ExtTreeMap.getElem?_insert] at hget
  split at hget
  · cases hget
    cases s.2
    · exact bounded_fresh _ _
    · exact bounded_fresh _ _
  · exact h topic hd hget

theorem subscribed_safe (relayDedup : Bool) (subs : List (UInt32 × Subscription)) :
    Safe (subscribed relayDedup subs) := by
  apply Transition.foldl_invariant Safe (fun _ => True) subscribe
    (fun t s h _ => subscribe_safe h s) subs
  · intro topic h hget
    simp at hget
  · intro _ _
    trivial

theorem deliver_safe {t : UdpTransport Handler} (h : Safe t) (topicId : UInt32) (payload : Bytes)
    (hp : payload.length ≤ kMaxPayloadBytes) :
    ∃ r, deliver Handler.call t topicId payload = .ok r ∧ Safe r.1 := by
  unfold deliver
  cases hget : t.handlers[topicId]? with
  | none => exact ⟨_, rfl, h⟩
  | some hd =>
    obtain ⟨r, hcall, hsafe⟩ := call_safe (h _ _ hget) payload hp
    simp only [hcall]
    refine ⟨_, rfl, fun topic k hk => ?_⟩
    simp only [Std.ExtTreeMap.getElem?_insert] at hk
    split at hk
    · cases hk
      exact hsafe
    · exact h topic k hk

theorem safe_of_handlers {t t' : UdpTransport Handler} (h : Safe t)
    (heq : t'.handlers = t.handlers) : Safe t' := by
  intro topic hd hget
  rw [heq] at hget
  exact h topic hd hget

theorem dispatchFrame_safe {t : UdpTransport Handler} (h : Safe t) (frame : DecodedFrame)
    (hp : frame.payload.length ≤ kMaxPayloadBytes) :
    ∃ r, dispatchFrame Handler.call t frame = .ok r ∧ Safe r.1 := by
  have hdrop : Safe (dropDuplicate t frame.header.topicId frame.header.seqNum).2 :=
    safe_of_handlers h (dropDuplicate_handlers ..)
  unfold dispatchFrame
  by_cases hdup : (dropDuplicate t frame.header.topicId frame.header.seqNum).1 = true
  · exact ⟨_, if_pos hdup, hdrop⟩
  · obtain ⟨r, hr, hsafe⟩ := deliver_safe hdrop frame.header.topicId frame.payload hp
    exact ⟨r, (if_neg hdup).trans hr, hsafe⟩

/-- A datagram inside the budget is received without leaving a buffer. -/
theorem receive_step {t : UdpTransport Handler} (h : Safe t) (datagram : Bytes)
    (hd : PayloadAtMost kMaxPayloadBytes datagram) : ∃ t', receive t datagram = .ok t' ∧ Safe t' := by
  suffices ∃ r, recvAndDispatch Handler.call t datagram = .ok r ∧ Safe r.1 by
    obtain ⟨r, hr, hsafe⟩ := this
    exact ⟨r.1, by rw [receive, hr]; rfl, hsafe⟩
  cases hf : decodeFrame datagram with
  | error e =>
    unfold recvAndDispatch
    by_cases hempty : datagram = []
    · exact ⟨_, if_pos hempty, h⟩
    · rw [if_neg hempty, hf]
      exact ⟨_, rfl, safe_of_handlers h (handOff_handlers t datagram)⟩
  | ok frame =>
    rw [recvAndDispatch_frame _ _ hf]
    exact dispatchFrame_safe h frame (hd frame hf)

/-- Any run of datagrams inside the budget stays inside the buffers. -/
theorem receive_safe (relayDedup : Bool) (subs : List (UInt32 × Subscription))
    (datagrams : List Bytes)
    (hd : ∀ d ∈ datagrams, PayloadAtMost kMaxPayloadBytes d) :
    ∃ t, datagrams.foldlM receive (subscribed relayDedup subs) = .ok t ∧ Safe t :=
  Transition.foldlM_ok Safe (PayloadAtMost kMaxPayloadBytes) receive
    (fun _ d h hb => receive_step h d hb) datagrams _ (subscribed_safe relayDedup subs) hd

/-! ### Beyond the budget

One chunk that claims to be the whole of a new frame and carries more than a slot. -/

/-- Chunk 0 of 1 of frame 1, `count` bytes announced; `rest` is the rest of the payload. -/
def loneChunk (count : UInt16) (rest : Bytes) : Bytes :=
  u32 1 ++ (u16 0 ++ (u16 1 ++ (u16 count ++ rest)))

theorem loneChunk_length (count : UInt16) (rest : Bytes) :
    (loneChunk count rest).length = rest.length + 10 := by
  simp [loneChunk]
  omega

theorem loneChunk_fields (count : UInt16) (rest : Bytes) :
    readU32 0 (loneChunk count rest) = 1 ∧ readU16 4 (loneChunk count rest) = 0 ∧
      readU16 6 (loneChunk count rest) = 1 ∧ readU16 8 (loneChunk count rest) = count :=
  have h := header 1 0 1 count rest
  ⟨h.frameId, h.index, h.count, h.bytes⟩

/-- A fresh reassembler writes past the single slot it allocated. -/
theorem chunkRaw_overflow {μ : Type} (dataBytes : Nat) (stamp stamp' : μ) (data : Bytes)
    (count : UInt16) (hdata : count.toNat ≤ data.length) (hover : dataBytes < count.toNat) :
    chunkRaw dataBytes (.fresh stamp) 1 0 1 data count stamp' =
      .error (.write 0 count.toNat dataBytes) := by
  have hcopy : Buffer.copyInto (List.replicate dataBytes 0) 0 data count.toNat =
      .error (.write 0 count.toNat dataBytes) := by
    rw [Buffer.copyInto_fault hdata (by simpa using hover), List.length_replicate]
  simp [chunkRaw, openFrame, Reassembler.fresh, hcopy]

/-- The payload of `n` bytes that overflows a subscription of the given kind. -/
def Subscription.overflow (n : Nat) : Subscription → Bytes
  | .image => loneChunk (UInt16.ofNat (n - 10)) (List.replicate (n - 10) 0)
  | .compressedImage => loneChunk (UInt16.ofNat (n - 19)) (List.replicate (n - 10) 0)

/-- The write past the one slot the overflowing payload makes. -/
def Subscription.overflowFault (n : Nat) : Subscription → Buffer.Fault
  | .image => .write 0 (n - 10) kImageChunkDataBytes
  | .compressedImage => .write 0 (n - 19) kCompressedImageChunkDataBytes

theorem overflow_length (k : Subscription) {n : Nat} (h : kMaxPayloadBytes < n) :
    (k.overflow n).length = n := by
  have : 1400 < n := h
  cases k <;> simp only [Subscription.overflow, loneChunk_length, List.length_replicate] <;> omega

/-- The fresh handler of a subscription, on its overflowing payload. -/
theorem call_overflow (k : Subscription) {n : Nat} (h : kMaxPayloadBytes < n) (hn : n < 65536) :
    k.handler.call (k.overflow n) = .error (k.overflowFault n) := by
  have hlen := overflow_length k h
  have hlow : 1400 < n := h
  cases k with
  | image =>
    have hcount : (UInt16.ofNat (n - 10)).toNat = n - 10 := by
      rw [UInt16.toNat_ofNat', Nat.mod_eq_of_lt (by omega)]
    obtain ⟨hid, hidx, hcnt, hbytes⟩ :=
      loneChunk_fields (UInt16.ofNat (n - 10)) (List.replicate (n - 10) 0)
    have hraw := chunkRaw_overflow kImageChunkDataBytes () ()
      ((Subscription.image.overflow n).drop kImageChunkHeaderBytes) (UInt16.ofNat (n - 10))
      (by rw [hcount, List.length_drop, hlen]; exact Nat.le_refl _)
      (by rw [hcount]; show 1390 < n - 10; omega)
    rw [hcount] at hraw
    simp only [Subscription.handler, Handler.call, subscribeImageHandler]
    rw [if_neg (by rw [hlen]; show ¬ n < 10; omega), if_neg]
    · simp only [Subscription.overflow, hid, hidx, hcnt, hbytes] at hraw ⊢
      rw [ImageReassembler.onChunkRaw, ImageReassembler.init, hraw, Subscription.overflowFault]
    · rw [hlen, Subscription.overflow, hbytes, hcount]
      exact not_not.mpr rfl
  | compressedImage =>
    have hcount : (UInt16.ofNat (n - 19)).toNat = n - 19 := by
      rw [UInt16.toNat_ofNat', Nat.mod_eq_of_lt (by omega)]
    obtain ⟨hid, hidx, hcnt, hbytes⟩ :=
      loneChunk_fields (UInt16.ofNat (n - 19)) (List.replicate (n - 10) 0)
    have hraw := fun stamp => chunkRaw_overflow kCompressedImageChunkDataBytes
      (⟨0, 0⟩ : CaptureStamp) stamp
      ((Subscription.compressedImage.overflow n).drop kCompressedImageChunkHeaderBytes)
      (UInt16.ofNat (n - 19))
      (by rw [hcount, List.length_drop, hlen]; exact Nat.le_refl _)
      (by rw [hcount]; show 1381 < n - 19; omega)
    rw [hcount] at hraw
    simp only [Subscription.handler, Handler.call, subscribeCompressedImageHandler]
    rw [if_neg (by rw [hlen]; show ¬ n < 19; omega), if_neg]
    · simp only [Subscription.overflow, hid, hidx, hcnt, hbytes] at hraw ⊢
      rw [CompressedImageReassembler.onChunkRaw, CompressedImageReassembler.init, hraw,
        Subscription.overflowFault]
    · rw [hlen, Subscription.overflow, hbytes, hcount]
      exact not_not.mpr rfl

/-- A subscribed topic has a fresh handler of one of the two kinds. -/
theorem subscribed_handler (relayDedup : Bool) (subs : List (UInt32 × Subscription))
    {topic : UInt32} {k : Subscription} (h : (topic, k) ∈ subs) :
    ∃ k', (subscribed relayDedup subs).handlers[topic]? = some (Subscription.handler k') := by
  unfold subscribed
  generalize ({relayDedupEnabled := relayDedup} : UdpTransport Handler) = t
  have keep : ∀ (subs : List (UInt32 × Subscription)) (t : UdpTransport Handler),
      (∃ k', t.handlers[topic]? = some (Subscription.handler k')) →
      ∃ k', (subs.foldl subscribe t).handlers[topic]? = some (Subscription.handler k') := by
    intro subs t ht
    apply Transition.foldl_invariant (fun t : UdpTransport Handler =>
      ∃ k', t.handlers[topic]? = some (Subscription.handler k')) (fun _ => True) subscribe
      _ subs t ht (fun _ _ => trivial)
    intro t s ⟨k', hk⟩ _
    simp only [subscribe, setTopicHandler, Std.ExtTreeMap.getElem?_insert]
    split
    · exact ⟨s.2, rfl⟩
    · exact ⟨k', hk⟩
  induction subs generalizing t with
  | nil => cases h
  | cons s rest ih =>
    rcases List.mem_cons.mp h with rfl | h
    · exact keep rest _ ⟨k, by simp [subscribe, setTopicHandler]⟩
    · exact ih h (subscribe t s)

/-- Before any datagram no sequence number is a duplicate. -/
theorem subscribed_not_duplicate (relayDedup : Bool) (subs : List (UInt32 × Subscription))
    (topic : UInt32) (seq : UInt16) :
    (dropDuplicate (subscribed relayDedup subs) topic seq).1 = false := by
  have hrecent : (subscribed relayDedup subs).recentSeqs = ∅ :=
    Transition.foldl_invariant (fun t : UdpTransport Handler => t.recentSeqs = ∅) (fun _ => True)
      subscribe (fun _ _ h _ => h) subs _ rfl (fun _ _ => trivial)
  unfold dropDuplicate isRecentDuplicate
  split
  · simp [UdpTransport.window, hrecent, SeqWindow.holds]
  · rfl

/-- A topic with a fresh handler faults on the one frame that overflows it. -/
theorem overflow_faults (relayDedup : Bool) (subs : List (UInt32 × Subscription)) {topic : UInt32}
    {k : Subscription} (h : (subscribed relayDedup subs).handlers[topic]? = some k.handler) {n : Nat}
    (hlow : kMaxPayloadBytes < n) (hhigh : n < 65536) :
    [frameBytes topic 0 (k.overflow n)].foldlM receive (subscribed relayDedup subs) =
      .error (k.overflowFault n) := by
  have hdec := decodeFrame_frameBytes topic 0 (k.overflow n)
    (by rw [overflow_length k hlow]; exact hhigh)
  have hcall := call_overflow k hlow hhigh
  have hfresh := subscribed_not_duplicate relayDedup subs topic 0
  rw [List.foldlM_cons, receive, recvAndDispatch_frame _ _ hdec, dispatchFrame]
  simp only [hfresh, deliver, dropDuplicate_handlers, h, hcall]
  rfl

/-- **Memory safety, exactly.** Every run of datagrams whose accepted payloads are at
most `limit` bytes stays inside the reassembly buffers if and only if the limit is
the sender's budget or less. -/
theorem image_receive_safe_iff (relayDedup : Bool) (subs : List (UInt32 × Subscription))
    (hsubs : subs ≠ []) (limit : Nat) (hlimit : limit + 11 ≤ kMaxDatagramBytes) :
    (∀ datagrams : List Bytes,
      (∀ d ∈ datagrams, d.length ≤ kMaxDatagramBytes ∧ PayloadAtMost limit d) →
      ∃ t, datagrams.foldlM receive (subscribed relayDedup subs) = .ok t) ↔
    limit ≤ kMaxPayloadBytes := by
  constructor
  · intro hsafe
    by_contra hover
    obtain ⟨⟨topic, k⟩, hmem⟩ := List.exists_mem_of_ne_nil subs hsubs
    obtain ⟨k', hget⟩ := subscribed_handler relayDedup subs hmem
    have hlow : kMaxPayloadBytes < limit := by omega
    have hhigh : limit < 65536 := by
      have : limit + 11 ≤ 65507 := hlimit
      omega
    have hlen := overflow_length k' hlow
    have hdec := decodeFrame_frameBytes topic 0 (k'.overflow limit) (by omega)
    obtain ⟨t, ht⟩ := hsafe [frameBytes topic 0 (k'.overflow limit)] (by
      intro d hd
      rw [List.mem_singleton] at hd
      subst hd
      refine ⟨by rw [frameBytes_length, hlen]; exact hlimit, fun f hf => ?_⟩
      rw [hdec] at hf
      cases hf
      exact Nat.le_of_eq hlen)
    rw [overflow_faults relayDedup subs hget hlow hhigh] at ht
    cases ht
  · intro hle datagrams hd
    obtain ⟨t, ht, _⟩ := receive_safe relayDedup subs datagrams
      (fun d hm f hf => Nat.le_trans ((hd d hm).2 f hf) hle)
    exact ⟨t, ht⟩

theorem image_receive_safe_camera :
    (∀ datagrams : List Bytes,
      (∀ d ∈ datagrams, d.length ≤ kMaxDatagramBytes ∧ PayloadAtMost 1400 d) →
      ∃ t, datagrams.foldlM receive (subscribed true [(7, .image), (9, .compressedImage)]) = .ok t) ↔
    1400 ≤ kMaxPayloadBytes :=
  image_receive_safe_iff true [(7, .image), (9, .compressedImage)] (by decide) 1400 (by decide)

/-- One datagram of 1412 bytes, accepted by the decoder and by the handler's checks,
makes either subscription copy past its buffer. -/
theorem oversized_chunk_escapes :
    (frameBytes 7 0 (Subscription.image.overflow 1401)).length ≤ kMaxDatagramBytes ∧
      [frameBytes 7 0 (Subscription.image.overflow 1401)].foldlM receive
        (subscribed false [(7, .image)]) = .error (.write 0 1391 1390) ∧
      (frameBytes 7 0 (Subscription.compressedImage.overflow 1401)).length ≤ kMaxDatagramBytes ∧
      [frameBytes 7 0 (Subscription.compressedImage.overflow 1401)].foldlM receive
        (subscribed false [(7, .compressedImage)]) = .error (.write 0 1382 1381) := by
  have hlen := fun k : Subscription => overflow_length k (show kMaxPayloadBytes < 1401 by decide)
  refine ⟨?_, ?_, ?_, ?_⟩
  · rw [frameBytes_length, hlen]
    decide
  · exact overflow_faults false [(7, .image)] (by simp [subscribed, subscribe, setTopicHandler])
      (by decide) (by decide)
  · rw [frameBytes_length, hlen]
    decide
  · exact overflow_faults false [(7, .compressedImage)]
      (by simp [subscribed, subscribe, setTopicHandler]) (by decide) (by decide)

end Relink.Image
