import Overlay.Error

/-!
# Frames on a stream

A stream carries byte strings one after the other, each behind its length in two octets.  A
`FrameDecoder` holds what was received and not yet handed out; `next?` hands out the first complete frame.
-/

namespace Overlay

namespace Frame

def maxSize : Nat := 65535

/-- A payload behind its length. -/
def encode (payload : Bytes) : Except TransportError Bytes :=
  if maxSize < payload.length then .error (.frameTooLarge payload.length)
  else .ok (bigEndian 2 payload.length ++ payload)

/-- The first frame of a stream and the stream after it, if the frame is complete. -/
def split? : Bytes → Option (Bytes × Bytes)
  | a :: b :: rest =>
    let size := ofBigEndian [a, b]
    if rest.length < size then none else some (rest.take size, rest.drop size)
  | _ => none

end Frame

/-- The part of a stream that was received and not yet handed out. -/
structure FrameDecoder where
  buffer : Bytes

namespace FrameDecoder

def empty : FrameDecoder := ⟨[]⟩

def extend (d : FrameDecoder) (data : Bytes) : FrameDecoder := ⟨d.buffer ++ data⟩

def next? (d : FrameDecoder) : Option (Bytes × FrameDecoder) :=
  (Frame.split? d.buffer).map fun (frame, rest) => (frame, ⟨rest⟩)

def buffered (d : FrameDecoder) : Nat := d.buffer.length

theorem next?_buffered {d d' : FrameDecoder} {frame : Bytes} (h : d.next? = some (frame, d')) :
    d'.buffered < d.buffered := by
  obtain ⟨buffer⟩ := d
  match buffer with
  | [] => simp [next?, Frame.split?] at h
  | [_] => simp [next?, Frame.split?] at h
  | a :: b :: rest =>
    simp only [next?, Frame.split?] at h
    split at h
    · simp at h
    · simp only [Option.map_some, Option.some.injEq, Prod.mk.injEq] at h
      obtain ⟨_, rfl⟩ := h
      simp only [buffered, List.length_drop, List.length_cons]
      omega

def drain (d : FrameDecoder) : List Bytes × FrameDecoder :=
  match _h : d.next? with
  | none => ([], d)
  | some (frame, d') =>
    let (frames, last) := d'.drain
    (frame :: frames, last)
termination_by d.buffered
decreasing_by exact next?_buffered _h

end FrameDecoder

end Overlay
