import LibMsf.Frpc.Message
import LibMsf.Sock.Connection

/-!
Frames in the read buffer of a connection.

Both ends look at a frame in three steps: the length word, the message behind it, and
the whole frame once it is complete. `lengthIn`, `messageIn` and `sizeIn` are what the
steps take arbitrary bytes for. The lemmas say what this is when the buffer holds a
beginning of some frames, back to back.
-/

namespace LibMsf

open Cxx

section Stream

variable (codec : Codec FastMessage)

def stream (frames : List Frame) : Bytes :=
  frames.flatMap (Frame.bytes codec)

/-- The bytes are a beginning of the next frame, and not the whole of it. -/
def Unfinished : List Frame → Bytes → Prop
  | [], bytes => bytes = []
  | f :: _, bytes => bytes <+: f.bytes codec ∧ bytes.length < (f.bytes codec).length

variable {codec}

theorem stream_cons (f : Frame) (frames : List Frame) :
    stream codec (f :: frames) = f.bytes codec ++ stream codec frames :=
  List.flatMap_cons

theorem stream_append (done rest : List Frame) :
    stream codec (done ++ rest) = stream codec done ++ stream codec rest :=
  List.flatMap_append

theorem unfinished_nil (frames : List Frame) : Unfinished codec frames [] := by
  cases frames with
  | nil => rfl
  | cons f frames =>
      refine ⟨⟨_, List.nil_append _⟩, ?_⟩
      rw [Frame.length_bytes, List.length_nil]
      omega

/-- A beginning of the stream either stops inside the first frame or has it in front. -/
theorem stream_cases {f : Frame} {frames : List Frame} {q : Bytes}
    (hq : q <+: stream codec (f :: frames)) :
    q <+: f.bytes codec ∧ q.length < (f.bytes codec).length ∨
      ∃ tail, q = f.bytes codec ++ tail ∧ tail <+: stream codec frames := by
  rw [stream_cons] at hq
  by_cases hlt : q.length < (f.bytes codec).length
  · exact .inl ⟨List.prefix_of_prefix_length_le hq (List.prefix_append _ _) hlt.le, hlt⟩
  · obtain ⟨tail, rfl⟩ : f.bytes codec <+: q :=
      List.prefix_of_prefix_length_le (List.prefix_append _ _) hq (Nat.not_lt.mp hlt)
    exact .inr ⟨tail, rfl, (List.prefix_append_right_inj _).mp hq⟩

end Stream

theorem take_of_beginning {q l : Bytes} (h : q <+: l) {n : Nat} (hn : n ≤ q.length) :
    q.take n = l.take n := by
  obtain ⟨rest, rfl⟩ := h
  rw [List.take_append_of_le_length hn]

namespace Frame

/-- The variable that `ReceiveData` copies the length word into; a copy that is refused
leaves it alone. -/
def peekedLength (length : UInt32) : Option Bytes → UInt32
  | some bytes => .ofNat (deserializeValue bytes)
  | none => length

/-- The length word in front of arbitrary bytes. -/
def lengthIn (q : Bytes) : Nat :=
  deserializeValue (q.take 4)

/-- What parsing gives for the message behind the length word. -/
def messageIn (codec : Codec FastMessage) (q : Bytes) : Bool × FastMessage :=
  codec.parse ((q.drop 4).take (lengthIn q))

def sizeIn (codec : Codec FastMessage) (q : Bytes) : Nat :=
  4 + lengthIn q + (messageIn codec q).2.length.toNat

theorem lengthIn_lt (q : Bytes) : lengthIn q < 2 ^ 32 := by
  refine lt_of_lt_of_le (deserializeValue_lt _) ?_
  exact (Nat.pow_le_pow_right (by decide) (List.length_take_le 4 _)).trans (by decide)

theorem toNat_peekedLength (old : UInt32) (q : Bytes) :
    (peekedLength old (some (q.take 4))).toNat = lengthIn q :=
  UInt32.toNat_ofNat_of_lt' (lengthIn_lt q)

theorem drop_message (q : Bytes) :
    (q.take (4 + lengthIn q)).drop 4 = (q.drop 4).take (lengthIn q) := by
  rw [List.drop_take, Nat.add_sub_cancel_left]

section Append

variable {q : Bytes} (hlong : 4 + lengthIn q ≤ q.length) (more : Bytes)

include hlong

theorem lengthIn_append : lengthIn (q ++ more) = lengthIn q := by
  rw [lengthIn, lengthIn, List.take_append_of_le_length (by omega)]

theorem messageIn_append (codec : Codec FastMessage) :
    messageIn codec (q ++ more) = messageIn codec q := by
  rw [messageIn, messageIn, lengthIn_append hlong, List.drop_append_of_le_length (by omega),
    List.take_append_of_le_length (by rw [List.length_drop]; omega)]

theorem sizeIn_append (codec : Codec FastMessage) :
    sizeIn codec (q ++ more) = sizeIn codec q := by
  rw [sizeIn, sizeIn, lengthIn_append hlong, messageIn_append hlong]

end Append

variable {codec : Codec FastMessage} {f : Frame} {q tail : Bytes}

theorem lengthIn_frame (hf : f.Carried codec) (hq : q <+: f.bytes codec ++ tail)
    (hlong : 4 ≤ q.length) : lengthIn q = (codec.serialize f.message).length := by
  have hword : q.take 4 = serializeValue 4 (codec.serialize f.message).length := by
    rw [take_of_beginning hq hlong, bytes, List.append_assoc, List.append_assoc,
      List.take_left' (length_serializeValue 4 _)]
  rw [lengthIn, hword, deserializeValue_of_lt (show _ < 256 ^ 4 from hf.message_short)]

theorem messageIn_frame (hf : f.Carried codec) (hq : q <+: f.bytes codec ++ tail)
    (hlong : 4 + (codec.serialize f.message).length ≤ q.length) :
    messageIn codec q = (true, f.message) := by
  have hlength := lengthIn_frame hf hq (by omega)
  have htake : q.take (4 + (codec.serialize f.message).length) =
      serializeValue 4 (codec.serialize f.message).length ++ codec.serialize f.message := by
    rw [take_of_beginning hq hlong, bytes, List.append_assoc]
    exact List.take_left' (by rw [List.length_append, length_serializeValue])
  rw [messageIn, ← drop_message, hlength, htake, List.drop_left' (length_serializeValue 4 _)]
  exact hf.message

theorem sizeIn_frame (hf : f.Carried codec) (hq : q <+: f.bytes codec ++ tail)
    (hlong : 4 + (codec.serialize f.message).length ≤ q.length) :
    sizeIn codec q = (f.bytes codec).length := by
  rw [sizeIn, lengthIn_frame hf hq (by omega), messageIn_frame hf hq hlong, hf.body_length,
    length_bytes]

theorem drop_bytes (codec : Codec FastMessage) (f : Frame) :
    (f.bytes codec).drop (4 + (codec.serialize f.message).length) = f.body := by
  rw [bytes]
  exact List.drop_left' (by rw [List.length_append, length_serializeValue])

end Frame

/-- A connection with an empty buffer of 16 bytes. -/
def echoConn : TCPConnection where
  fdOpen := true
  state := .connected
  writeEvent := false
  readBuf := ⟨List.replicate 16 0, 16, 0, 0⟩
  writeBuf := ⟨List.replicate 16 0, 16, 0, 0⟩
  writePendingQueue := []
  writeBusyQueue := []

theorem echoConn_empty : echoConn.readBuf.Represents [] := by
  obtain ⟨b, hnew, h⟩ := Buffer.new_represents (n := 16) (by decide) (by decide)
  have heq : Buffer.new 16 = .ok echoConn.readBuf := by decide +kernel
  rw [heq] at hnew
  cases hnew
  exact h

end LibMsf
