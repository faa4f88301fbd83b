import Golos.Lib.ByteFile
import Golos.Lib.BlockStream

/-!
This module contains the encrypted socket of a connection and the framing of messages on it: how
`send_message` pads a message to whole blocks and how `read_loop` takes the messages off the stream.
-/

namespace Golos

def maxMessageSize : UInt32 := 1024 * 1024 * 2

structure MessageHeader where
  size : UInt32
  msgType : UInt32
  deriving DecidableEq

structure Message extends MessageHeader where
  data : List UInt8
  deriving DecidableEq

namespace MessageHeader

/-- The header as it lies in memory. -/
def bytes (header : MessageHeader) : ByteFile :=
  ByteFile.encodeBytes 4 header.size.toNat ++ ByteFile.encodeBytes 4 header.msgType.toNat

def ofBytes (bytes : ByteFile) : MessageHeader where
  size := UInt32.ofNat (ByteFile.decodeBytes (bytes.take 4))
  msgType := UInt32.ofNat (ByteFile.decodeBytes ((bytes.drop 4).take 4))

end MessageHeader

/-- Where reading or writing does not go on. -/
inductive ConnectionStop (ε : Type) where
  /-- The loop has not come that far yet. -/
  | running
  /-- The socket has no more bytes for now. -/
  | waiting
  /-- `assert` -/
  | assertion
  /-- `FC_ASSERT(m.size <= MAX_MESSAGE_SIZE)` -/
  | oversized
  /-- What the delegate has thrown. -/
  | thrown (e : ε)
  deriving DecidableEq

/-- The two ciphers of a socket, the bytes written to the TCP socket, and those that the TCP socket
has still to deliver, in order. -/
structure StcpSocket (σ τ : Type) where
  sendAes : σ
  recvAes : τ
  sent : List UInt8 := []
  incoming : List UInt8 := []
  /-- How often `readsome` of the TCP socket was called. -/
  tcpReads : Nat := 0

namespace StcpSocket

variable {σ τ ε : Type}

/-- `readsome` of the TCP socket: some of the bytes that are there, at least one and at most `len`.
How many is up to `arrivals`. -/
def tcpReadsome (arrivals : Nat → Nat) (len : Nat) (sock : StcpSocket σ τ) :
    Except (ConnectionStop ε) (List UInt8 × StcpSocket σ τ) :=
  if sock.incoming = [] then
    .error .waiting
  else
    let s := max 1 (min len (arrivals sock.tcpReads))
    .ok (sock.incoming.take s,
      { sock with incoming := sock.incoming.drop s, tcpReads := sock.tcpReads + 1 })

def readBufferLength : Nat := 4096

def writeBufferLength : Nat := 4096

/-- Read at least 16 bytes, to decrypt whole blocks. -/
def readsome (arrivals : Nat → Nat) (decode : τ → List UInt8 → τ × List UInt8) (len : Nat)
    (sock : StcpSocket σ τ) : Except (ConnectionStop ε) (List UInt8 × StcpSocket σ τ) := do
  if ¬(len > 0 ∧ len % 16 = 0) then throw .assertion
  let (buffer, sock) ← sock.tcpReadsome arrivals (min readBufferLength len)
  let missing := if buffer.length % 16 ≠ 0 then 16 - buffer.length % 16 else 0
  let (rest, sock) ← BlockStream.readExactly (tcpReadsome arrivals) missing missing sock
  let (aes, plain) := decode sock.recvAes (buffer ++ rest)
  pure (plain, { sock with recvAes := aes })

/-- `istream::read` -/
def read (arrivals : Nat → Nat) (decode : τ → List UInt8 → τ × List UInt8) (len : Nat)
    (sock : StcpSocket σ τ) : Except (ConnectionStop ε) (List UInt8 × StcpSocket σ τ) :=
  BlockStream.readExactly (readsome arrivals decode) len len sock

/-- Encrypt and write at most a buffer of bytes; says how many. -/
def writesome (encode : σ → List UInt8 → σ × List UInt8) (buffer : List UInt8)
    (sock : StcpSocket σ τ) : Except (ConnectionStop ε) (Nat × StcpSocket σ τ) := do
  if ¬(buffer.length > 0 ∧ buffer.length % 16 = 0) then throw .assertion
  let len := min writeBufferLength buffer.length
  let (aes, ciphertext) := encode sock.sendAes (buffer.take len)
  if ciphertext.length ≠ len then throw .assertion
  pure (ciphertext.length, { sock with sendAes := aes, sent := sock.sent ++ ciphertext })

/-- `ostream::write`: every call of `writesome` takes a part off, so the length is fuel enough. -/
def writeAll (encode : σ → List UInt8 → σ × List UInt8) :
    (fuel : Nat) → (buffer : List UInt8) → StcpSocket σ τ →
      Except (ConnectionStop ε) (StcpSocket σ τ)
  | _, [], sock => .ok sock
  | 0, _ :: _, sock => .ok sock
  | fuel + 1, byte :: rest, sock => do
    let (n, sock) ← sock.writesome encode (byte :: rest)
    writeAll encode fuel ((byte :: rest).drop n) sock

def write (encode : σ → List UInt8 → σ × List UInt8) (buffer : List UInt8)
    (sock : StcpSocket σ τ) : Except (ConnectionStop ε) (StcpSocket σ τ) :=
  writeAll encode buffer.length buffer sock

end StcpSocket

structure MessageOrientedConnection (σ τ : Type) where
  sock : StcpSocket σ τ
  bytesSent : UInt64 := 0
  bytesReceived : UInt64 := 0

/-- The size with which a message goes over the wire. -/
def paddedSize (size : UInt32) : Nat :=
  16 * ((8 + size.toNat + 15) / 16)

/-- What `send_message` writes into the memory that it has allocated. -/
def paddedMessage (memory : Nat → UInt8) (m : Message) : ByteFile :=
  let padded : ByteFile := (List.range (paddedSize m.size)).map memory
  let padded := padded.write 0 m.toMessageHeader.bytes
  padded.write 8 (m.data.take m.size.toNat)

namespace MessageOrientedConnection

variable {σ τ δ ε : Type}

def sendMessage (encode : σ → List UInt8 → σ × List UInt8)
    (conn : MessageOrientedConnection σ τ) (memory : Nat → UInt8) (m : Message) :
    Except (ConnectionStop ε) (MessageOrientedConnection σ τ) := do
  let sock ← conn.sock.write encode (paddedMessage memory m)
  pure { conn with
    sock := sock, bytesSent := conn.bytesSent + UInt64.ofNat (paddedSize m.size) }

/-- Send messages in order, each from memory of its own. -/
def sendMessages (encode : σ → List UInt8 → σ × List UInt8) :
    List ((Nat → UInt8) × Message) → MessageOrientedConnection σ τ →
      Except (ConnectionStop ε) (MessageOrientedConnection σ τ)
  | [], conn => .ok conn
  | (memory, m) :: rest, conn => do
    let conn ← conn.sendMessage encode memory m
    sendMessages encode rest conn

def leftover : UInt32 := 8

/-- The length of what follows the first block, in the arithmetic of `uint32_t`. -/
def remainingBytesWithPadding (size : UInt32) : UInt32 :=
  16 * ((size - leftover + 15) / 16)

/-- One turn of `read_loop` up to the call of the delegate; `m` is the message of the turn before. -/
def readMessage (arrivals : Nat → Nat) (decode : τ → List UInt8 → τ × List UInt8) (m : Message)
    (conn : MessageOrientedConnection σ τ) :
    Except (ConnectionStop ε) (Message × MessageOrientedConnection σ τ) := do
  let (buffer, sock) ← conn.sock.read arrivals decode 16
  let bytesReceived := conn.bytesReceived + 16
  let header := MessageHeader.ofBytes (buffer.take 8)
  if ¬header.size ≤ maxMessageSize then throw .oversized
  let remaining := (remainingBytesWithPadding header.size).toNat
  let data : ByteFile := ByteFile.resize m.data (8 + remaining)
  let data := data.write 0 (buffer.drop 8)
  -- nothing is read where the first block holds the whole message
  let (bytes, sock) ← sock.read arrivals decode remaining
  let data := (data.write 8 bytes).resize header.size.toNat
  pure ({ header with data := data },
    { conn with sock := sock, bytesReceived := bytesReceived + UInt64.ofNat remaining })

/-- The state of `read_loop`: its message, and what the delegate has got so far. -/
structure ReadLoop (σ τ δ : Type) where
  conn : MessageOrientedConnection σ τ
  delegate : δ
  m : Message
  delivered : List Message := []

/-- `read_loop`. Where it stops it is left in the state after the last message that it has read. -/
def readLoop (arrivals : Nat → Nat) (decode : τ → List UInt8 → τ × List UInt8)
    (onMessage : δ → Message → Except ε δ) :
    (turns : Nat) → ReadLoop σ τ δ → ReadLoop σ τ δ × ConnectionStop ε
  | 0, loop => (loop, .running)
  | turns + 1, loop =>
    match loop.conn.readMessage arrivals decode loop.m with
    | .error stop => (loop, stop)
    | .ok (m, conn) =>
      let loop := { loop with conn := conn, m := m, delivered := loop.delivered ++ [m] }
      match onMessage loop.delegate m with
      | .error e => (loop, .thrown e)
      | .ok delegate => readLoop arrivals decode onMessage turns { loop with delegate := delegate }

end MessageOrientedConnection

end Golos
