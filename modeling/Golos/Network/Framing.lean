import Golos.Network.Impl.Framing

/-!
This module contains the proof that the messages sent on one side of a connection are delivered on
the other side, for any way in which the bytes between them arrive: the socket gives back what was
written to the other one, and a message that was padded is read whole.
-/

namespace Golos

open BlockStream

namespace StcpSocket

variable {σ τ ε : Type} {encode : σ → List UInt8 → σ × List UInt8}
  {decode : τ → List UInt8 → τ × List UInt8} {arrivals : Nat → Nat}

/-- The bytes that the socket will give, once decrypted. -/
def Holds (decode : τ → List UInt8 → τ × List UInt8) (sock : StcpSocket σ τ)
    (plain : List UInt8) : Prop :=
  Ahead 16 decode sock.recvAes sock.incoming plain

theorem tcpReadsome_eq_ok (arrivals : Nat → Nat) {sock : StcpSocket σ τ} {len : Nat}
    (hlen : 0 < len) (hle : len ≤ sock.incoming.length) :
    ∃ k, 0 < k ∧ k ≤ len ∧
      tcpReadsome (ε := ε) arrivals len sock = .ok (sock.incoming.take k,
        { sock with incoming := sock.incoming.drop k, tcpReads := sock.tcpReads + 1 }) := by
  refine ⟨max 1 (min len (arrivals sock.tcpReads)), by omega, by omega, ?_⟩
  have hne : sock.incoming ≠ [] := by
    intro h
    rw [h, List.length_nil] at hle
    omega
  rw [tcpReadsome, if_neg hne]

/-- Reading from the TCP socket until so many bytes are there touches nothing else. -/
theorem readExactly_tcp (arrivals : Nat → Nat) {sock : StcpSocket σ τ} {len : Nat} (hle : len ≤ sock.incoming.length) :
    ∃ sock', readExactly (tcpReadsome (ε := ε) arrivals) len len sock =
        .ok (sock.incoming.take len, sock') ∧
      sock'.incoming = sock.incoming.drop len ∧ sock'.recvAes = sock.recvAes := by
  have hsome : ∀ (s : StcpSocket σ τ) stream n,
      (s.incoming = stream ∧ s.recvAes = sock.recvAes) → 0 < n → 1 ∣ n → n ≤ stream.length →
      ∃ k s', 0 < k ∧ k ≤ n ∧ 1 ∣ k ∧
        tcpReadsome (ε := ε) arrivals n s = .ok (stream.take k, s') ∧
        s'.incoming = stream.drop k ∧ s'.recvAes = sock.recvAes := by
    intro s stream n hs hpos _ hn
    obtain ⟨rfl, haes⟩ := hs
    obtain ⟨k, hk, hkn, hread⟩ := tcpReadsome_eq_ok arrivals hpos hn
    exact ⟨k, _, hk, hkn, Nat.one_dvd k, hread, rfl, haes⟩
  exact readExactly_eq_ok hsome ⟨rfl, rfl⟩ (Nat.one_dvd len) hle (Nat.le_refl len)

/-- Whatever the TCP socket gives, what is read is the beginning of what it holds, in whole blocks. -/
theorem readsome_eq_ok (arrivals : Nat → Nat)
    (hdec : ∀ t piece, 16 ∣ piece.length → (decode t piece).2.length = piece.length)
    {sock : StcpSocket σ τ} {plain : List UInt8} (h : Holds decode sock plain) {len : Nat}
    (hpos : 0 < len) (hdvd : 16 ∣ len) (hle : len ≤ plain.length) :
    ∃ k sock', 0 < k ∧ k ≤ len ∧ 16 ∣ k ∧
      readsome (ε := ε) arrivals decode len sock = .ok (plain.take k, sock') ∧
      Holds decode sock' (plain.drop k) := by
  rw [h.length_eq hdec] at hle
  have hmin : min readBufferLength len ≤ sock.incoming.length := by
    unfold readBufferLength
    omega
  obtain ⟨s, hs, hsle, hread⟩ :=
    tcpReadsome_eq_ok (ε := ε) arrivals (Nat.lt_min.mpr ⟨by decide, hpos⟩) hmin
  have hbuffer : (sock.incoming.take s).length = s := by
    rw [List.length_take]
    omega
  -- the blocks that the bytes got so far lie in
  let missing := if s % 16 ≠ 0 then 16 - s % 16 else 0
  have hwhole : 16 ∣ s + missing := by
    simp only [missing]
    split
    . omega
    . omega
  have hsk : s + missing ≤ min readBufferLength len := by
    have hblocks : 16 ∣ min readBufferLength len := by
      unfold readBufferLength
      omega
    simp only [missing]
    split
    . omega
    . omega
  have hmissing : missing ≤ ({ sock with
      incoming := sock.incoming.drop s
      tcpReads := sock.tcpReads + 1 } : StcpSocket σ τ).incoming.length := by
    simp only [List.length_drop]
    omega
  obtain ⟨sock', hrest, hincoming, haes⟩ := readExactly_tcp (ε := ε) arrivals hmissing
  have htake : sock.incoming.take s ++ (sock.incoming.drop s).take missing =
      sock.incoming.take (s + missing) := List.take_add.symm
  obtain ⟨hplain, hahead⟩ := h.decode_take hdec hwhole (by omega)
  refine ⟨s + missing, { sock' with recvAes := (decode sock.recvAes
    (sock.incoming.take (s + missing))).1 }, by omega, by omega, hwhole, ?_, ?_⟩
  . unfold readsome
    rw [if_neg (by simp; omega)]
    simp only [bind, Except.bind, pure, Except.pure, hread, hbuffer]
    rw [show (if s % 16 ≠ 0 then 16 - s % 16 else 0) = missing from rfl, hrest]
    simp only [haes, htake, hplain]
  . simp only [Holds, hincoming, List.drop_drop]
    exact hahead

theorem read_eq_ok (arrivals : Nat → Nat)
    (hdec : ∀ t piece, 16 ∣ piece.length → (decode t piece).2.length = piece.length)
    {sock : StcpSocket σ τ} {plain : List UInt8} (h : Holds decode sock plain) (len : Nat)
    (hdvd : 16 ∣ len) (hle : len ≤ plain.length) :
    ∃ sock', read (ε := ε) arrivals decode len sock = .ok (plain.take len, sock') ∧
      Holds decode sock' (plain.drop len) := by
  have hsome : ∀ (s : StcpSocket σ τ) stream n, Holds decode s stream → 0 < n → 16 ∣ n →
      n ≤ stream.length → ∃ k s', 0 < k ∧ k ≤ n ∧ 16 ∣ k ∧
        readsome (ε := ε) arrivals decode n s = .ok (stream.take k, s') ∧
        Holds decode s' (stream.drop k) := by
    intro s stream n hs hpos hn hns
    exact readsome_eq_ok arrivals hdec hs hpos hn hns
  exact readExactly_eq_ok hsome h hdvd hle (Nat.le_refl len)

/-- `plain` was written to the socket, encrypted in whole blocks. -/
def Wrote (encode : σ → List UInt8 → σ × List UInt8) (sock sock' : StcpSocket σ τ)
    (plain : List UInt8) : Prop :=
  ∃ pieces, Whole 16 pieces ∧ pieces.flatten = plain ∧
    sock'.sent = sock.sent ++ codeAll encode sock.sendAes pieces ∧
    sock'.sendAes = pieces.foldl (fun s piece => (encode s piece).1) sock.sendAes

theorem Wrote.refl (sock : StcpSocket σ τ) : Wrote encode sock sock [] :=
  ⟨[], by simp [Whole], rfl, by simp [codeAll], rfl⟩

theorem Wrote.trans {s₁ s₂ s₃ : StcpSocket σ τ} {xs ys : List UInt8}
    (h₁ : Wrote encode s₁ s₂ xs) (h₂ : Wrote encode s₂ s₃ ys) :
    Wrote encode s₁ s₃ (xs ++ ys) := by
  obtain ⟨p, hp, rfl, hsent₁, haes₁⟩ := h₁
  obtain ⟨q, hq, rfl, hsent₂, haes₂⟩ := h₂
  refine ⟨p ++ q, hp.append hq, List.flatten_append, ?_, ?_⟩
  . rw [codeAll_append, ← List.append_assoc, ← hsent₁, ← haes₁]
    exact hsent₂
  . rw [List.foldl_append, ← haes₁]
    exact haes₂

theorem writesome_eq_ok
    (henc : ∀ s piece, 16 ∣ piece.length → (encode s piece).2.length = piece.length)
    {buffer : List UInt8} (hpos : 0 < buffer.length) (hdvd : 16 ∣ buffer.length)
    (sock : StcpSocket σ τ) :
    ∃ n sock', 0 < n ∧ 16 ∣ n ∧ n ≤ buffer.length ∧
      writesome (ε := ε) encode buffer sock = .ok (n, sock') ∧
      Wrote encode sock sock' (buffer.take n) := by
  have hblocks : 16 ∣ min writeBufferLength buffer.length := by
    unfold writeBufferLength
    omega
  have hone : 0 < min writeBufferLength buffer.length := by
    unfold writeBufferLength
    omega
  have htake : (buffer.take (min writeBufferLength buffer.length)).length =
      min writeBufferLength buffer.length := by
    rw [List.length_take]
    omega
  have hlen := henc sock.sendAes (buffer.take (min writeBufferLength buffer.length))
    (by rwa [htake])
  rw [htake] at hlen
  let coded := encode sock.sendAes (buffer.take (min writeBufferLength buffer.length))
  refine ⟨min writeBufferLength buffer.length,
    { sock with sendAes := coded.1, sent := sock.sent ++ coded.2 }, hone, hblocks, by omega, ?_, ?_⟩
  . unfold writesome
    rw [if_neg (by simp; omega)]
    simp only [bind, Except.bind, pure, Except.pure, hlen, ne_eq, not_true_eq_false, if_false]
    rfl
  . refine ⟨[buffer.take (min writeBufferLength buffer.length)], ?_, ?_, ?_, ?_⟩
    . intro piece hpiece
      rw [List.mem_singleton.mp hpiece]
      rwa [htake]
    . simp
    . simp [codeAll, coded]
    . simp [coded]

theorem writeAll_eq_ok
    (henc : ∀ s piece, 16 ∣ piece.length → (encode s piece).2.length = piece.length)
    {fuel : Nat} {buffer : List UInt8} (hfuel : buffer.length ≤ fuel) (hdvd : 16 ∣ buffer.length)
    (sock : StcpSocket σ τ) :
    ∃ sock', writeAll (ε := ε) encode fuel buffer sock = .ok sock' ∧
      Wrote encode sock sock' buffer := by
  induction fuel generalizing buffer sock with
  | zero =>
    obtain rfl : buffer = [] := List.eq_nil_of_length_eq_zero (by omega)
    exact ⟨sock, rfl, Wrote.refl sock⟩
  | succ fuel ih =>
    cases buffer with
    | nil => exact ⟨sock, rfl, Wrote.refl sock⟩
    | cons byte rest =>
      obtain ⟨n, s₁, hpos, hn, hle, hsome, hwrote⟩ :=
        writesome_eq_ok (ε := ε) henc (List.length_pos_of_mem (List.mem_cons_self (a := byte) (l := rest))) hdvd sock
      have hdrop : ((byte :: rest).drop n).length ≤ fuel := by
        rw [List.length_drop]
        omega
      have hleft : 16 ∣ ((byte :: rest).drop n).length := by
        rw [List.length_drop]
        exact Nat.dvd_sub hdvd hn
      obtain ⟨s₂, hrest, hlast⟩ := ih hdrop hleft s₁
      refine ⟨s₂, ?_, ?_⟩
      . rw [writeAll, hsome]
        exact hrest
      . have hboth := hwrote.trans hlast
        rwa [List.take_append_drop] at hboth

theorem write_eq_ok
    (henc : ∀ s piece, 16 ∣ piece.length → (encode s piece).2.length = piece.length)
    {buffer : List UInt8} (hdvd : 16 ∣ buffer.length) (sock : StcpSocket σ τ) :
    ∃ sock', write (ε := ε) encode buffer sock = .ok sock' ∧ Wrote encode sock sock' buffer :=
  writeAll_eq_ok henc (Nat.le_refl _) hdvd sock

end StcpSocket

namespace MessageHeader

@[simp]
theorem length_bytes (header : MessageHeader) : header.bytes.length = 8 := by
  simp [bytes]

theorem ofBytes_bytes (header : MessageHeader) : ofBytes header.bytes = header := by
  have hsize : (ByteFile.encodeBytes 4 header.size.toNat).length = 4 := by simp
  have htype : (ByteFile.encodeBytes 4 header.msgType.toNat).length = 4 := by simp
  have hlt := header.size.toNat_lt
  have hlt' := header.msgType.toNat_lt
  unfold ofBytes bytes
  rw [List.take_left' hsize, List.drop_left' hsize, List.take_of_length_le (Nat.le_of_eq htype)]
  rw [ByteFile.decodeBytes_encodeBytes (by omega), ByteFile.decodeBytes_encodeBytes (by omega)]
  rw [UInt32.ofNat_toNat, UInt32.ofNat_toNat]

end MessageHeader

theorem dvd_paddedSize (size : UInt32) : 16 ∣ paddedSize size :=
  Nat.dvd_mul_right 16 _

theorem le_paddedSize (size : UInt32) : 8 + size.toNat ≤ paddedSize size := by
  unfold paddedSize
  omega

/-- The bytes left of the memory behind a message. -/
def padding (memory : Nat → UInt8) (m : Message) : List UInt8 :=
  ((List.range (paddedSize m.size)).map memory).drop (8 + m.data.length)

theorem paddedMessage_eq (memory : Nat → UInt8) {m : Message} (h : m.size.toNat = m.data.length) :
    paddedMessage memory m = m.toMessageHeader.bytes ++ (m.data ++ padding memory m) := by
  have hdata : m.data.take m.size.toNat = m.data := by rw [h, List.take_length]
  have hbytes := m.toMessageHeader.length_bytes
  simp only [paddedMessage, ByteFile.write, hdata, padding, hbytes, List.take_zero, List.nil_append,
    Nat.zero_add]
  rw [List.take_left' hbytes, Nat.add_comm 8 m.data.length, List.append_assoc]
  rw [List.drop_append, hbytes, List.drop_of_length_le (by omega), List.nil_append, List.drop_drop]
  rw [show 8 + (m.data.length + 8 - 8) = m.data.length + 8 by omega]

theorem length_paddedMessage (memory : Nat → UInt8) {m : Message}
    (h : m.size.toNat = m.data.length) :
    (paddedMessage memory m).length = paddedSize m.size := by
  have hle := le_paddedSize m.size
  rw [paddedMessage_eq memory h]
  simp only [List.length_append, MessageHeader.length_bytes, padding, List.length_drop,
    List.length_map, List.length_range]
  omega

namespace MessageOrientedConnection

/-- The two sides agree on the padding: after the first block comes the rest of the padded size. -/
theorem remainingBytesWithPadding_eq {size : UInt32} (h : size ≤ maxMessageSize) :
    16 + (remainingBytesWithPadding size).toNat = paddedSize size := by
  have hle : size.toNat ≤ 1024 * 1024 * 2 := h
  have hsum : (size - leftover + 15).toNat = size.toNat + 7 := by
    rw [show size - leftover + 15 = size + 7 by unfold leftover; grind]
    rw [UInt32.toNat_add, show (7 : UInt32).toNat = 7 from rfl]
    omega
  unfold remainingBytesWithPadding paddedSize
  rw [UInt32.toNat_mul, UInt32.toNat_div, hsum, show (16 : UInt32).toNat = 16 from rfl]
  omega

/-- A file that is overwritten from its beginning to its end holds what was written. -/
theorem write_write_eq {file xs ys : ByteFile} (h : file.length = xs.length + ys.length) :
    (file.write 0 xs).write xs.length ys = xs ++ ys := by
  simp only [ByteFile.write, List.take_zero, List.nil_append, Nat.zero_add]
  rw [List.take_left, List.drop_of_length_le, List.append_nil]
  rw [List.length_append, List.length_drop]
  omega

variable {σ τ ε : Type} {decode : τ → List UInt8 → τ × List UInt8} {arrivals : Nat → Nat}

/-- A message that lies ahead is read as it was sent, and exactly its padded bytes are taken. -/
theorem readMessage_eq_ok (arrivals : Nat → Nat)
    (hdec : ∀ t piece, 16 ∣ piece.length → (decode t piece).2.length = piece.length)
    {conn : MessageOrientedConnection σ τ} {memory : Nat → UInt8} {m : Message}
    {rest : List UInt8} (hsize : m.size.toNat = m.data.length) (hmax : m.size ≤ maxMessageSize)
    (h : conn.sock.Holds decode (paddedMessage memory m ++ rest)) (old : Message) :
    ∃ conn', readMessage (ε := ε) arrivals decode old conn = .ok (m, conn') ∧
      conn'.sock.Holds decode rest ∧
      conn'.bytesReceived = conn.bytesReceived + UInt64.ofNat (paddedSize m.size) := by
  have hlen := length_paddedMessage memory hsize
  have hpadded := remainingBytesWithPadding_eq hmax
  have hdvd := dvd_paddedSize m.size
  let tail := m.data ++ padding memory m
  have hmessage : paddedMessage memory m = m.toMessageHeader.bytes ++ tail :=
    paddedMessage_eq memory hsize
  have hheader := m.toMessageHeader.length_bytes
  have htail : tail.length = 8 + (remainingBytesWithPadding m.size).toNat := by
    rw [hmessage, List.length_append, hheader] at hlen
    omega
  obtain ⟨sock₁, hread₁, hholds₁⟩ := StcpSocket.read_eq_ok (ε := ε) arrivals hdec h 16
    (Nat.dvd_refl 16) (by rw [List.length_append]; omega)
  obtain ⟨sock₂, hread₂, hholds₂⟩ := StcpSocket.read_eq_ok (ε := ε) arrivals hdec
    hholds₁ (remainingBytesWithPadding m.size).toNat (by omega)
    (by rw [List.length_drop, List.length_append]; omega)
  have hbuffer : (paddedMessage memory m ++ rest).take 16 =
      m.toMessageHeader.bytes ++ tail.take 8 := by
    rw [List.take_append_of_le_length (by omega), hmessage, List.take_append, hheader]
    rw [List.take_of_length_le (by omega)]
  have hbytes : ((paddedMessage memory m ++ rest).drop 16).take
      (remainingBytesWithPadding m.size).toNat = tail.drop 8 := by
    rw [List.drop_append_of_le_length (by omega), hmessage, List.drop_append, hheader]
    rw [List.drop_of_length_le (by omega), List.nil_append]
    exact List.take_left' (by rw [List.length_drop]; omega)
  have hrest : ((paddedMessage memory m ++ rest).drop 16).drop
      (remainingBytesWithPadding m.size).toNat = rest := by
    rw [List.drop_drop, hpadded]
    exact List.drop_left' hlen
  rw [hbuffer] at hread₁
  rw [hbytes] at hread₂
  rw [hrest] at hholds₂
  refine ⟨{ conn with
    sock := sock₂
    bytesReceived :=
      conn.bytesReceived + 16 + UInt64.ofNat (remainingBytesWithPadding m.size).toNat },
    ?_, hholds₂, ?_⟩
  . have hfile : (ByteFile.resize old.data (8 + (remainingBytesWithPadding m.size).toNat)).length =
        (tail.take 8).length + (tail.drop 8).length := by
      rw [← List.length_append, List.take_append_drop, htail]
      simp [ByteFile.resize]
      omega
    have hwrite := write_write_eq hfile
    have hfirst : (tail.take 8).length = 8 := by
      rw [List.length_take]
      omega
    rw [List.take_append_drop, hfirst] at hwrite
    have hdata : ByteFile.resize tail m.size.toNat = m.data := by
      rw [ByteFile.resize, hsize, List.take_left]
      rw [show m.data.length - tail.length = 0 by simp [tail]]
      simp
    unfold readMessage
    simp only [bind, Except.bind, pure, Except.pure, hread₁]
    rw [List.take_left' hheader, List.drop_left' hheader, MessageHeader.ofBytes_bytes]
    rw [if_neg (by simpa using hmax)]
    simp only [hread₂, hwrite, hdata]
  . rw [UInt64.add_assoc, ← hpadded, UInt64.ofNat_add]
    rfl

end MessageOrientedConnection

namespace MessageOrientedConnection

open BlockStream

variable {σ τ δ ε : Type} {encode : σ → List UInt8 → σ × List UInt8}
  {decode : τ → List UInt8 → τ × List UInt8} {arrivals : Nat → Nat}

/-- Messages whose size is that of their data, and not too large. -/
def WellSized (sends : List ((Nat → UInt8) × Message)) : Prop :=
  ∀ send ∈ sends, send.2.size.toNat = send.2.data.length ∧ send.2.size ≤ maxMessageSize

/-- What goes over the wire, before it is encrypted. -/
def framed (sends : List ((Nat → UInt8) × Message)) : List UInt8 :=
  (sends.map fun send => paddedMessage send.1 send.2).flatten

def framedSize (sends : List ((Nat → UInt8) × Message)) : Nat :=
  (sends.map fun send => paddedSize send.2.size).sum

theorem length_framed {sends : List ((Nat → UInt8) × Message)} (h : WellSized sends) :
    (framed sends).length = framedSize sends := by
  induction sends with
  | nil => rfl
  | cons send sends ih =>
    obtain ⟨hsend, hrest⟩ := List.forall_mem_cons.mp h
    have ih := ih hrest
    unfold framed framedSize at ih ⊢
    rw [List.map_cons, List.flatten_cons, List.length_append, List.map_cons, List.sum_cons, ih]
    rw [length_paddedMessage send.1 hsend.1]

theorem sendMessages_eq_ok
    (henc : ∀ s piece, 16 ∣ piece.length → (encode s piece).2.length = piece.length)
    {sends : List ((Nat → UInt8) × Message)} (h : WellSized sends)
    (conn : MessageOrientedConnection σ τ) :
    ∃ conn', sendMessages (ε := ε) encode sends conn = .ok conn' ∧
      conn.sock.Wrote encode conn'.sock (framed sends) ∧
      conn'.bytesSent = conn.bytesSent + UInt64.ofNat (framedSize sends) := by
  induction sends generalizing conn with
  | nil => exact ⟨conn, rfl, .refl conn.sock, by simp [framedSize]⟩
  | cons send sends ih =>
    obtain ⟨memory, m⟩ := send
    obtain ⟨hsend, hrest⟩ := List.forall_mem_cons.mp h
    have hdvd : 16 ∣ (paddedMessage memory m).length := by
      rw [length_paddedMessage memory hsend.1]
      exact dvd_paddedSize m.size
    obtain ⟨sock, hwrite, hwrote⟩ := StcpSocket.write_eq_ok (ε := ε) henc hdvd conn.sock
    obtain ⟨conn', hsent, hmore, hbytes⟩ := ih hrest
      { conn with sock := sock, bytesSent := conn.bytesSent + UInt64.ofNat (paddedSize m.size) }
    refine ⟨conn', ?_, hwrote.trans hmore, ?_⟩
    . rw [sendMessages, sendMessage, hwrite]
      exact hsent
    . rw [hbytes, UInt64.add_assoc, ← UInt64.ofNat_add]
      rfl

/-- Where nothing lies ahead the loop waits for the next message. -/
theorem readMessage_waiting (arrivals : Nat → Nat)
    (hdec : ∀ t piece, 16 ∣ piece.length → (decode t piece).2.length = piece.length)
    {conn : MessageOrientedConnection σ τ} (h : conn.sock.Holds decode []) (old : Message) :
    conn.sock.incoming = [] ∧
    readMessage (ε := ε) arrivals decode old conn = .error .waiting := by
  have hnil : conn.sock.incoming = [] := by
    have hlen := h.length_eq hdec
    exact List.eq_nil_of_length_eq_zero hlen.symm
  refine ⟨hnil, ?_⟩
  have hread : StcpSocket.read (ε := ε) arrivals decode 16 conn.sock = .error .waiting := by
    simp [StcpSocket.read, readExactly, StcpSocket.readsome, StcpSocket.tcpReadsome, hnil, bind,
      Except.bind]
  rw [readMessage, hread]
  rfl

section Run

variable {onMessage : δ → Message → Except ε δ}

/-- Whatever the delegate does, it is handed a beginning of what was sent. -/
theorem delivered_readLoop (arrivals : Nat → Nat) (onMessage : δ → Message → Except ε δ)
    (hdec : ∀ t piece, 16 ∣ piece.length → (decode t piece).2.length = piece.length)
    {sends : List ((Nat → UInt8) × Message)} (hsends : WellSized sends)
    (loop : ReadLoop σ τ δ) (h : loop.conn.sock.Holds decode (framed sends)) (turns : Nat) :
    ∃ ms, ms <+: sends.map Prod.snd ∧
      (readLoop arrivals decode onMessage turns loop).1.delivered = loop.delivered ++ ms := by
  induction turns generalizing sends loop with
  | zero => exact ⟨[], List.nil_prefix, by simp [readLoop]⟩
  | succ turns ih =>
    cases sends with
    | nil =>
      refine ⟨[], List.nil_prefix, ?_⟩
      rw [readLoop, (readMessage_waiting arrivals hdec h loop.m).2, List.append_nil]
    | cons send sends =>
      obtain ⟨memory, m⟩ := send
      obtain ⟨hsend, hrest⟩ := List.forall_mem_cons.mp hsends
      obtain ⟨conn', hread, hholds, -⟩ :=
        readMessage_eq_ok (ε := ε) arrivals hdec hsend.1 hsend.2 h loop.m
      rw [readLoop, hread]
      simp only
      cases honmessage : onMessage loop.delegate m with
      | error e => exact ⟨[m], by simp, rfl⟩
      | ok delegate =>
        obtain ⟨ms, hms, hdelivered⟩ := ih hrest
          { loop with
            conn := conn', m := m, delivered := loop.delivered ++ [m], delegate := delegate } hholds
        refine ⟨m :: ms, ?_, ?_⟩
        . rw [List.map_cons]
          exact List.prefix_cons_inj m |>.mpr hms
        . simp only
          rw [hdelivered, List.append_assoc, List.singleton_append]

/-- Where the delegate accepts the messages it is handed all of them, and every byte is taken. -/
theorem readLoop_eq_waiting (arrivals : Nat → Nat)
    (hdec : ∀ t piece, 16 ∣ piece.length → (decode t piece).2.length = piece.length)
    {sends : List ((Nat → UInt8) × Message)} (hsends : WellSized sends)
    (loop : ReadLoop σ τ δ) (h : loop.conn.sock.Holds decode (framed sends)) {turns : Nat}
    (hturns : sends.length < turns) {delegate : δ}
    (hhandled : (sends.map Prod.snd).foldlM onMessage loop.delegate = .ok delegate) :
    ∃ loop', readLoop arrivals decode onMessage turns loop = (loop', .waiting) ∧
      loop'.delivered = loop.delivered ++ sends.map Prod.snd ∧ loop'.delegate = delegate ∧
      loop'.conn.sock.incoming = [] ∧
      loop'.conn.bytesReceived = loop.conn.bytesReceived + UInt64.ofNat (framedSize sends) := by
  induction sends generalizing loop turns with
  | nil =>
    obtain ⟨turns, rfl⟩ : ∃ n, turns = n + 1 := ⟨turns - 1, by simp at hturns; omega⟩
    obtain ⟨hnil, hread⟩ := readMessage_waiting (ε := ε) arrivals hdec h loop.m
    refine ⟨loop, by rw [readLoop, hread], by simp, ?_, hnil, by simp [framedSize]⟩
    simpa [pure, Except.pure] using hhandled
  | cons send sends ih =>
    obtain ⟨memory, m⟩ := send
    rw [List.length_cons] at hturns
    obtain ⟨turns, rfl⟩ : ∃ n, turns = n + 1 := ⟨turns - 1, by omega⟩
    obtain ⟨hsend, hrest⟩ := List.forall_mem_cons.mp hsends
    obtain ⟨conn', hread, hholds, hbytes⟩ :=
      readMessage_eq_ok (ε := ε) arrivals hdec hsend.1 hsend.2 h loop.m
    rw [List.map_cons, List.foldlM_cons] at hhandled
    cases honmessage : onMessage loop.delegate m with
    | error e => simp [honmessage, bind, Except.bind] at hhandled
    | ok next =>
      rw [honmessage] at hhandled
      obtain ⟨loop', hloop, hdelivered, hdelegate, hnil, hreceived⟩ := ih hrest
        { loop with
          conn := conn', m := m, delivered := loop.delivered ++ [m], delegate := next }
        hholds (Nat.lt_of_succ_lt_succ hturns) hhandled
      refine ⟨loop', ?_, ?_, hdelegate, hnil, ?_⟩
      . rw [readLoop, hread]
        simp only [honmessage]
        exact hloop
      . rw [hdelivered, List.append_assoc, List.map_cons, List.singleton_append]
      . rw [hreceived, hbytes, UInt64.add_assoc, ← UInt64.ofNat_add]
        rfl

/-- Messages sent in order on one side are delivered in order on the other one, each as it was sent,
from exactly the padded bytes that were written. -/
theorem readLoop_sendMessages {a b : MessageOrientedConnection σ τ}
    (hciphers : Inverts 16 encode decode a.sock.sendAes b.sock.recvAes)
    {sends : List ((Nat → UInt8) × Message)} (hsends : WellSized sends)
    (m : Message) (delegate : δ) :
    ∃ a' wire, sendMessages (ε := ε) encode sends a = .ok a' ∧
      a'.sock.sent = a.sock.sent ++ wire ∧ wire.length = framedSize sends ∧
      a'.bytesSent = a.bytesSent + UInt64.ofNat wire.length ∧
      ∀ arrivals turns, sends.length < turns →
        let (loop, stop) := readLoop arrivals decode onMessage turns
          { conn := { b with sock := { b.sock with incoming := wire } }, delegate := delegate, m := m }
        loop.delivered <+: sends.map Prod.snd ∧
        ∀ delegate', (sends.map Prod.snd).foldlM onMessage delegate = .ok delegate' →
          stop = .waiting ∧ loop.delivered = sends.map Prod.snd ∧ loop.delegate = delegate' ∧
          loop.conn.sock.incoming = [] ∧
          loop.conn.bytesReceived = b.bytesReceived + UInt64.ofNat wire.length := by
  obtain ⟨a', hsent, ⟨pieces, hwhole, hflat, hwire, -⟩, hbytes⟩ :=
    sendMessages_eq_ok (ε := ε) hciphers.length_encode hsends a
  have hlength : (codeAll encode a.sock.sendAes pieces).length = framedSize sends := by
    rw [length_codeAll hciphers.length_encode _ hwhole, hflat, length_framed hsends]
  have hahead := hciphers.ahead hwhole
  rw [hflat] at hahead
  refine ⟨a', codeAll encode a.sock.sendAes pieces, hsent, hwire, hlength, by rw [hbytes, hlength],
    ?_⟩
  intro arrivals turns hturns
  let start : ReadLoop σ τ δ :=
    { conn := { b with sock := { b.sock with incoming := codeAll encode a.sock.sendAes pieces } }
      delegate := delegate, m := m }
  obtain ⟨ms, hms, hdelivered⟩ := delivered_readLoop arrivals onMessage
    hciphers.length_decode hsends start hahead turns
  constructor
  . rw [hdelivered]
    exact hms
  . intro delegate' hhandled
    obtain ⟨loop', hloop, hall, hdelegate, hnil, hreceived⟩ := readLoop_eq_waiting
      arrivals hciphers.length_decode hsends start hahead hturns hhandled
    rw [show readLoop arrivals decode onMessage turns start = (loop', .waiting) from hloop]
    exact ⟨rfl, hall, hdelegate, hnil, by rw [hreceived, hlength]⟩

end Run

section Chaining

def xorBlock (block prev : List UInt8) : List UInt8 :=
  block.mapIdx fun i byte => byte ^^^ prev.getD i 0

/-- The cipher block chaining that the sockets use inverts itself, whatever the cipher of a block. -/
theorem inverts_cipherBlockChaining {lock unlock : List UInt8 → List UInt8}
    (hlock : ∀ x, (lock x).length = x.length) (hlen : ∀ x, (unlock x).length = x.length)
    (hunlock : ∀ x, unlock (lock x) = x) (prev : List UInt8) :
    Inverts 16 (chainEncoder xorBlock lock 16) (chainDecoder xorBlock unlock 16) prev prev := by
  apply inverts_chain _ _ hlock hlen hunlock
  . intro x p
    simp [xorBlock]
  . intro x p
    apply List.ext_getElem
    . simp [xorBlock]
    . intro i _ _
      simp only [xorBlock, List.getElem_mapIdx, UInt8.xor_assoc, UInt8.xor_self, UInt8.xor_zero]

end Chaining

def smallMessage : Message where
  size := 5
  msgType := 5000
  data := [1, 2, 3, 4, 5]

def largerMessage : Message where
  size := 9
  msgType := 5001
  data := List.replicate 9 8

/-- A message that fits into the first block and one that does not, however the bytes arrive. -/
theorem readLoop_sendMessages_two :
    let first : List UInt8 := List.replicate 16 3
    ∃ a' wire,
      sendMessages (ε := Unit)
        (chainEncoder xorBlock (fun x => (x.map fun byte => byte + 7).reverse) 16)
        [(fun _ => 0, smallMessage), (fun _ => 1, largerMessage)]
        { sock := { sendAes := first, recvAes := first } } = .ok a' ∧
      ∀ arrivals,
        (readLoop arrivals (chainDecoder xorBlock (fun x => x.reverse.map fun byte => byte - 7) 16)
          (fun ms m => Except.ok (ε := Unit) (ms ++ [m])) 3
          { conn := { sock := { sendAes := first, recvAes := first, incoming := wire } }
            delegate := [], m := ⟨⟨0, 0⟩, []⟩ }).1.delivered = [smallMessage, largerMessage] := by
  intro first
  have hciphers : Inverts 16
      (chainEncoder xorBlock (fun x => (x.map fun byte => byte + 7).reverse) 16)
      (chainDecoder xorBlock (fun x => x.reverse.map fun byte => byte - 7) 16) first first := by
    apply inverts_cipherBlockChaining
    . simp
    . simp
    . intro x
      simp [Function.comp_def]
  have hsends : WellSized [(fun _ => 0, smallMessage), (fun _ => 1, largerMessage)] := by
    simp [WellSized, smallMessage, largerMessage, maxMessageSize]
  obtain ⟨a', wire, hsent, -, -, -, hread⟩ :=
    @readLoop_sendMessages _ _ _ Unit _ _ (fun ms m => .ok (ms ++ [m]))
      { sock := { sendAes := first, recvAes := first } }
      { sock := { sendAes := first, recvAes := first } } hciphers _ hsends ⟨⟨0, 0⟩, []⟩ []
  refine ⟨a', wire, hsent, ?_⟩
  intro arrivals
  exact ((hread arrivals 3 (by decide)).2 _ rfl).2.1

end MessageOrientedConnection
end Golos
