import Synapse.Json.Utf8

/-!
# Newline framing over `bufio.Reader`

A connection carries newline-terminated frames: `sendHandshakeMessage` and
`sendMessageToConn` write a JSON value and `'\n'`. The reading side calls
`bufio.Reader.ReadBytes('\n')`, which reads from the socket into the reader's buffer until
the buffer holds a newline. A socket read returns whatever part of the stream has arrived,
so the stream is split into chunks the program does not choose. `receiveHandshakeMessage`
reads the first line through a reader of its own and drops it; `readMessages` then reads
the rest through a new reader.
-/

namespace Synapse.P2P

/-- `ReadBytes('\n')` on a reader whose buffer holds `buf`, over a socket whose next reads
return `chunks`: the line with its newline, what is left in the buffer, and the reads not
yet made; `none` when the socket ends before a newline. -/
def readBytes (buf : Bytes) : List Bytes → Option (Bytes × Bytes × List Bytes)
  | [] =>
    if 0x0A ∈ buf then some (buf.takeWhile (· != 0x0A) ++ [0x0A], (buf.dropWhile (· != 0x0A)).tail, [])
    else none
  | c :: cs =>
    if 0x0A ∈ buf then
      some (buf.takeWhile (· != 0x0A) ++ [0x0A], (buf.dropWhile (· != 0x0A)).tail, c :: cs)
    else readBytes (buf ++ c) cs

/-- The loop of `readMessages` on one reader: `ReadBytes` again and again until it fails.
Each frame takes at least its newline, so `fuel` frames are enough once `fuel` is the
length of what is left. -/
def readFrames : Nat → Bytes → List Bytes → List Bytes
  | 0, _, _ => []
  | fuel + 1, buf, chunks =>
    match readBytes buf chunks with
    | none => []
    | some (line, buf, chunks) => line :: readFrames fuel buf chunks

/-- What the dialing side reads on a connection: `receiveHandshakeMessage`'s line, then the
frames `readMessages` reads through a reader of its own. -/
def dialerReads (chunks : List Bytes) : Option (Bytes × List Bytes) :=
  (readBytes [] chunks).map fun r => (r.1, readFrames (r.2.2.flatten.length + 1) [] r.2.2)

/-- The lines of a stream after a partial line `cur`, each with its newline; an
unterminated tail is not a line. -/
def linesFrom (cur : Bytes) : Bytes → List Bytes
  | [] => []
  | b :: t => if b = 0x0A then (cur ++ [b]) :: linesFrom [] t else linesFrom (cur ++ [b]) t

/-- The lines of a stream: what the sender wrote, frame by frame. -/
def lines (s : Bytes) : List Bytes := linesFrom [] s

/-- The line `ReadBytes('\n')` returns on a fresh reader once the stream `s` has arrived:
everything up to the first newline, and nothing when there is none. -/
def firstLine (s : Bytes) : Bytes := ((readBytes [] [s]).map Prod.fst).getD []

theorem firstLine_append {f : Bytes} (hf : 0x0A ∉ f) (rest : Bytes) :
    firstLine (f ++ 0x0A :: rest) = f ++ [0x0A] := by
  have ht : (f ++ 0x0A :: rest).takeWhile (· != 0x0A) = f := by
    rw [List.takeWhile_append_of_pos (fun b hb => bne_iff_ne.mpr (by rintro rfl; exact hf hb))]
    simp
  simp [firstLine, readBytes, ht]

/-- The acceptor's handshake answer and its next frame arrive in one read: the dialer's
handshake gets the answer, and `readMessages` never sees the frame. -/
theorem dialer_drops_buffered_frame :
    lines (ascii "\x7b\"node_id\":\"A\"\x7d\n\x7b\"type\":\"HEARTBEAT\"\x7d\n") =
      [ascii "\x7b\"node_id\":\"A\"\x7d\n", ascii "\x7b\"type\":\"HEARTBEAT\"\x7d\n"] ∧
    dialerReads [ascii "\x7b\"node_id\":\"A\"\x7d\n\x7b\"type\":\"HEARTBEAT\"\x7d\n"] =
      some (ascii "\x7b\"node_id\":\"A\"\x7d\n", []) := by
  decide

end Synapse.P2P
