import Overlay.Wire.Frame

/-!
# Frames are found whatever the cuts

A stream arrives in chunks, and their borders may fall anywhere: inside a length, inside a payload, between two
frames.  After each chunk the decoder is drained (`FrameDecoder.feed`).

The loop that drains it is told apart from its result: `Drains` has one constructor for each way through the loop.
What it hands out and what it leaves is settled by the octets (`drains_iff`): the frames written behind each other
(`Frame.stream`), followed by what is left, spell what was held, and what is left holds no complete frame.
This does not speak of chunks, and so it carries over from one chunk to all of them (`drains_feed`).
`reassembled` puts the statements together.
-/

namespace Overlay

namespace Frame

/-- Some payloads as they travel on a stream, each behind its length. -/
def stream : List Bytes → Except TransportError Bytes
  | [] => .ok []
  | payload :: rest => do return (← encode payload) ++ (← stream rest)

variable {b frame rest s s' : Bytes} {payload : Bytes} {payloads others : List Bytes}

/-! ### One frame -/

theorem encode_ok (h : payload.length ≤ maxSize) : encode payload = .ok (bigEndian 2 payload.length ++ payload) :=
  if_neg (Nat.not_lt.2 h)

/-- What was written as a frame is a payload of a size that two octets can tell, behind its size. -/
theorem encode_eq_ok : encode payload = .ok frame ↔
    payload.length ≤ maxSize ∧ frame = bigEndian 2 payload.length ++ payload := by
  constructor
  · intro h
    have hsize : payload.length ≤ maxSize := by
      refine Nat.not_lt.1 fun hlarge => ?_
      rw [encode, if_pos hlarge] at h
      cases h
    rw [encode_ok hsize, Except.ok.injEq] at h
    exact ⟨hsize, h.symm⟩
  · rintro ⟨hsize, rfl⟩
    exact encode_ok hsize

/-- **A frame is split off exactly where one was written.** -/
theorem split?_eq_some : split? b = some (payload, rest) ↔ ∃ frame, encode payload = .ok frame ∧ b = frame ++ rest := by
  constructor
  · intro h
    match b with
    | [] => cases h
    | [_] => cases h
    | x :: y :: tail =>
      simp only [split?] at h
      split at h
      · cases h
      rename_i hcomplete
      obtain ⟨rfl, rfl⟩ := Prod.mk.inj (Option.some.inj h)
      have hlt : ofBigEndian [x, y] < 256 ^ 2 := ofBigEndian_lt [x, y]
      have hlength : (tail.take (ofBigEndian [x, y])).length = ofBigEndian [x, y] := by
        rw [List.length_take]
        omega
      have hspelled : bigEndian 2 (ofBigEndian [x, y]) = [x, y] := bigEndian_ofBigEndian [x, y]
      refine ⟨[x, y] ++ tail.take (ofBigEndian [x, y]), encode_eq_ok.2 ⟨?_, ?_⟩, ?_⟩
      · rw [hlength, maxSize]
        omega
      · rw [hlength, hspelled]
      · rw [List.append_assoc, List.take_append_drop]
        rfl
  · rintro ⟨frame, hframe, rfl⟩
    obtain ⟨hsize, rfl⟩ := encode_eq_ok.1 hframe
    obtain ⟨x, y, hxy⟩ : ∃ x y, bigEndian 2 payload.length = [x, y] := ⟨_, _, rfl⟩
    have hspelled : ofBigEndian [x, y] = payload.length := by
      rw [← hxy]
      refine ofBigEndian_bigEndian ?_
      rw [maxSize] at hsize
      omega
    have hcomplete : ¬ (payload ++ rest).length < payload.length := by
      rw [List.length_append]
      omega
    rw [hxy, List.append_assoc]
    simp only [List.cons_append, List.nil_append, split?, hspelled, if_neg hcomplete, List.take_left', List.drop_left']

/-! ### Frames behind each other -/

theorem stream_cons : stream (payload :: payloads) = .ok s ↔
    ∃ frame rest, encode payload = .ok frame ∧ stream payloads = .ok rest ∧ s = frame ++ rest := by
  rw [stream]
  cases encode payload with
  | error err => simp [bind, Except.bind]
  | ok frame =>
    cases stream payloads with
    | error err => simp [bind, Except.bind]
    | ok rest => simp [bind, Except.bind, pure, Except.pure, eq_comm]

theorem stream_append (h : stream payloads = .ok s) (h' : stream others = .ok s') :
    stream (payloads ++ others) = .ok (s ++ s') := by
  induction payloads generalizing s with
  | nil =>
    cases h
    exact h'
  | cons payload rest ih =>
    obtain ⟨frame, tail, hframe, htail, rfl⟩ := stream_cons.1 h
    exact stream_cons.2 ⟨frame, tail ++ s', hframe, ih htail, List.append_assoc _ _ _⟩

theorem stream_ok (h : ∀ payload ∈ payloads, payload.length ≤ maxSize) : ∃ s, stream payloads = .ok s := by
  induction payloads with
  | nil => exact ⟨[], rfl⟩
  | cons payload rest ih =>
    obtain ⟨s, hs⟩ := ih fun p hp => h p (List.mem_cons_of_mem _ hp)
    exact ⟨_, stream_cons.2 ⟨_, s, encode_ok (h payload List.mem_cons_self), hs, rfl⟩⟩

theorem two_mul_length_le (h : stream payloads = .ok s) : 2 * payloads.length ≤ s.length := by
  induction payloads generalizing s with
  | nil => exact Nat.zero_le _
  | cons payload rest ih =>
    obtain ⟨frame, tail, hframe, htail, rfl⟩ := stream_cons.1 h
    obtain ⟨-, rfl⟩ := encode_eq_ok.1 hframe
    have hrest := ih htail
    simp only [List.length_cons, List.length_append, length_bigEndian]
    omega

end Frame

namespace FrameDecoder

open Overlay.Frame (stream)

variable {d d' last : FrameDecoder} {payload : Bytes} {frames : List Bytes}

/-! ### The loop -/

/-- The loop that hands out frames until none is complete: what it hands out, and what it leaves. -/
inductive Drains : FrameDecoder → List Bytes → FrameDecoder → Prop where
  | done {d : FrameDecoder} : d.next? = none → Drains d [] d
  | next {d d' last : FrameDecoder} {payload : Bytes} {frames : List Bytes} :
      d.next? = some (payload, d') → Drains d' frames last → Drains d (payload :: frames) last

theorem next?_eq_some : d.next? = some (payload, d') ↔
    ∃ frame, Frame.encode payload = .ok frame ∧ d.buffer = frame ++ d'.buffer := by
  rw [← Frame.split?_eq_some, next?, Option.map_eq_some_iff]
  constructor
  · rintro ⟨⟨x, y⟩, h, heq⟩
    obtain ⟨rfl, rfl⟩ := Prod.mk.inj heq
    exact h
  · exact fun h => ⟨_, h, rfl⟩

theorem drain_none (h : d.next? = none) : d.drain = ([], d) := by
  rw [drain]
  split
  · rfl
  · rename_i heq
    rw [h] at heq
    cases heq

theorem drain_some (h : d.next? = some (payload, d')) : d.drain = (payload :: d'.drain.1, d'.drain.2) := by
  rw [drain]
  split
  · rename_i heq
    rw [h] at heq
    cases heq
  · rename_i heq
    rw [h] at heq
    obtain ⟨rfl, rfl⟩ := Prod.mk.inj (Option.some.inj heq)
    rfl

/-- **The loop ends**, and it ends as `drain` says. -/
theorem drains_drain (d : FrameDecoder) : Drains d d.drain.1 d.drain.2 := by
  induction hn : d.buffered using Nat.strongRecOn generalizing d with
  | _ n ih =>
    cases hd : d.next? with
    | none =>
      rw [drain_none hd]
      exact .done hd
    | some r =>
      -- Each frame takes octets away, so less is held when the loop goes on.
      have hless : r.2.buffered < n := hn ▸ next?_buffered hd
      rw [drain_some hd]
      exact .next hd (ih _ hless r.2 rfl)

theorem Drains.eq_drain (h : Drains d frames last) : d.drain = (frames, last) := by
  induction h with
  | done hd => exact drain_none hd
  | next hd _ ih => rw [drain_some hd, ih]

/-- **What the loop does is settled by the octets**: the frames and then what is left spell what was held, and what
is left holds no complete frame. -/
theorem drains_iff : Drains d frames last ↔
    last.next? = none ∧ ∃ s, stream frames = .ok s ∧ d.buffer = s ++ last.buffer := by
  constructor
  · intro h
    induction h with
    | done hd => exact ⟨hd, [], rfl, rfl⟩
    | next hd _ ih =>
      obtain ⟨hlast, s, hs, hrest⟩ := ih
      obtain ⟨frame, hframe, hbuffer⟩ := next?_eq_some.1 hd
      refine ⟨hlast, frame ++ s, Frame.stream_cons.2 ⟨frame, s, hframe, hs, rfl⟩, ?_⟩
      rw [hbuffer, hrest, List.append_assoc]
  · rintro ⟨hlast, s, hs, hbuffer⟩
    induction frames generalizing d s with
    | nil =>
      cases hs
      obtain rfl : d = last := congrArg FrameDecoder.mk hbuffer
      exact .done hlast
    | cons payload rest ih =>
      obtain ⟨frame, tail, hframe, htail, rfl⟩ := Frame.stream_cons.1 hs
      rw [List.append_assoc] at hbuffer
      have hnext : d.next? = some (payload, ⟨tail ++ last.buffer⟩) := next?_eq_some.2 ⟨frame, hframe, hbuffer⟩
      exact .next hnext (ih tail htail rfl)

/-! ### Chunk after chunk -/

def feed (d : FrameDecoder) : List Bytes → List Bytes × FrameDecoder
  | [] => ([], d)
  | chunk :: rest =>
    let (frames, d) := (d.extend chunk).drain
    let (later, d) := d.feed rest
    (frames ++ later, d)

/-- Feeding chunks to a drained decoder hands out and leaves what the loop does on all of them at once. -/
theorem drains_feed (hd : d.next? = none) (chunks : List Bytes) :
    Drains (d.extend chunks.flatten) (d.feed chunks).1 (d.feed chunks).2 := by
  induction chunks generalizing d with
  | nil =>
    refine drains_iff.2 ⟨hd, [], rfl, ?_⟩
    exact List.append_nil _
  | cons chunk rest ih =>
    obtain ⟨hnone, s, hs, hbuffer⟩ := drains_iff.1 (d.extend chunk).drains_drain
    obtain ⟨hlast, s', hs', hrest⟩ := drains_iff.1 (ih hnone)
    refine drains_iff.2 ⟨hlast, s ++ s', Frame.stream_append hs hs', ?_⟩
    calc (d.extend (chunk ++ rest.flatten)).buffer
        = (d.extend chunk).buffer ++ rest.flatten := (List.append_assoc _ _ _).symm
      _ = s ++ ((d.extend chunk).drain.2.extend rest.flatten).buffer := by
          rw [hbuffer, List.append_assoc]
          rfl
      _ = s ++ s' ++ ((d.extend chunk).drain.2.feed rest).2.buffer := by rw [hrest, List.append_assoc]

/-- The cuts do not matter. -/
theorem feed_eq_drain (chunks : List Bytes) : empty.feed chunks = (empty.extend chunks.flatten).drain := by
  have hempty : empty.next? = none := rfl
  exact (drains_feed hempty chunks).eq_drain.symm

/-- **Reassembly does not depend on the chunks.**  Payloads that fit into frames can be written behind each other, and
however the stream is cut, a fresh decoder that is drained after each chunk hands out exactly these payloads in
order, and holds nothing in the end.  For any stream at all, what is handed out and what is left over depend on the
stream alone, the frames written again and then what is left over are the stream, and what is left over holds no
complete frame.  The loop that drains a decoder ends whatever it holds, after at most one frame for every two
octets. -/
theorem reassembled :
    (∀ payloads : List Bytes, (∀ payload ∈ payloads, payload.length ≤ 65535) →
      ∃ s, stream payloads = .ok s ∧ ∀ chunks : List Bytes, chunks.flatten = s →
        (empty.feed chunks).1 = payloads ∧ (empty.feed chunks).2.buffered = 0) ∧
      (∀ chunks chunks' : List Bytes, chunks.flatten = chunks'.flatten → empty.feed chunks = empty.feed chunks') ∧
      (∀ chunks : List Bytes, (empty.feed chunks).2.next? = none ∧
        ∃ s, stream (empty.feed chunks).1 = .ok s ∧ s ++ (empty.feed chunks).2.buffer = chunks.flatten) ∧
      ∀ d : FrameDecoder, Drains d d.drain.1 d.drain.2 ∧ 2 * d.drain.1.length ≤ d.buffered ∧
        ∀ frames last, Drains d frames last → d.drain = (frames, last) := by
  refine ⟨?_, ?_, ?_, ?_⟩
  · intro payloads hsize
    obtain ⟨s, hs⟩ := Frame.stream_ok hsize
    refine ⟨s, hs, ?_⟩
    rintro chunks rfl
    have hdrains : Drains (empty.extend chunks.flatten) payloads empty :=
      drains_iff.2 ⟨rfl, chunks.flatten, hs, (List.append_nil _).symm⟩
    rw [feed_eq_drain, hdrains.eq_drain]
    exact ⟨rfl, rfl⟩
  · intro chunks chunks' h
    rw [feed_eq_drain, feed_eq_drain, h]
  · intro chunks
    obtain ⟨hlast, s, hs, hbuffer⟩ := drains_iff.1 (empty.extend chunks.flatten).drains_drain
    rw [feed_eq_drain]
    exact ⟨hlast, s, hs, hbuffer.symm⟩
  · intro d
    obtain ⟨-, s, hs, hbuffer⟩ := drains_iff.1 d.drains_drain
    refine ⟨d.drains_drain, ?_, fun _ _ h => h.eq_drain⟩
    have hlength := Frame.two_mul_length_le hs
    rw [buffered, hbuffer, List.length_append]
    omega

/-- Three payloads, one of them empty, arrive octet by octet. -/
theorem reassembled_octetwise :
    let payloads : List Bytes := [[1, 2], [], [3]]
    let octets : List Bytes := [[0], [2], [1], [2], [], [0], [0], [0], [1], [3]]
    stream payloads = .ok octets.flatten ∧ (empty.feed octets).1 = payloads ∧
      (empty.feed octets).2.buffered = 0 := by
  intro payloads octets
  have hstream : stream payloads = .ok octets.flatten := rfl
  obtain ⟨s, hs, hfeed⟩ := reassembled.1 payloads (by decide)
  exact ⟨hstream, hfeed octets (Except.ok.inj (hstream.symm.trans hs))⟩

end FrameDecoder

end Overlay
