import FinChain.Lib.Pieces
import Mathlib.Algebra.Order.Ring.Nat

/-!
# The encrypted socket

`stcp_socket` encrypts what is written and decrypts what is read, in blocks of 16 bytes. TCP takes all bytes that it is
given, but gives them back in pieces of any size (`Incoming.cut`); so `readsome` reads the rest of a block that has
come in part. Hence what the socket supplies is the plain text of the complete blocks, in multiples of 16 bytes
(`supplies_readsome`), and it writes the cipher text of what it is given (`writesome_spec`).

The cipher is a parameter. It works block by block, and decodes what was encoded (`Cipher`).
-/

namespace FinChain.Net

open Exec

/-- How reading, writing and handling a message may fail. -/
inductive NetFault
  | eof
  | canceled
  /-- A failed `assert`. -/
  | aborted
  /-- A failed `FC_ASSERT`. -/
  | assertion
  /-- Another exception of the delegate. -/
  | handler
  | unhandled
  deriving DecidableEq

/-- `fc::aes_encoder` and `fc::aes_decoder`, from one state of either to the next. -/
structure Cipher (κ : Type) where
  encode : κ → List UInt8 → List UInt8 × κ
  decode : κ → List UInt8 → List UInt8 × κ
  /-- The two sides are in the same state. -/
  Paired : κ → κ → Prop
  encode_nil : ∀ k, encode k [] = ([], k)
  length_encode : ∀ k {a}, 16 ∣ a.length → (encode k a).1.length = a.length
  length_decode : ∀ k {a}, 16 ∣ a.length → (decode k a).1.length = a.length
  encode_append : ∀ k {a} b, 16 ∣ a.length →
    encode k (a ++ b) = ((encode k a).1 ++ (encode (encode k a).2 b).1, (encode (encode k a).2 b).2)
  decode_append : ∀ k {a} b, 16 ∣ a.length →
    decode k (a ++ b) = ((decode k a).1 ++ (decode (decode k a).2 b).1, (decode (decode k a).2 b).2)
  decode_encode : ∀ {e d} {a : List UInt8}, Paired e d → 16 ∣ a.length → (decode d (encode e a).1).1 = a

variable {κ : Type}

/-! ### Reading -/

/-- `message` -/
structure Message where
  size : UInt32
  msgType : UInt32
  data : List UInt8
  deriving DecidableEq

/-- The receiving side of a connection: of the TCP stream, of the socket and of the messages. -/
structure Incoming (κ : Type) where
  /-- The bytes that have not been read from the TCP stream. -/
  wire : List UInt8
  /-- How often the TCP stream has been read. -/
  calls : ℕ := 0
  recvAes : κ
  /-- The numbers of bytes that `readsome` was asked for, and that it returned. -/
  pieces : List ℕ := []
  /-- The numbers of bytes that `read_loop` asked for. -/
  reads : List ℕ := []
  bytesReceived : ℕ := 0
  /-- The messages that were given to the delegate. -/
  delivered : List Message := []
  connectionClosed : Bool := false

/-- `fc::tcp_socket::readsome`: as many bytes as there are at the moment, at least one and at most `len`. -/
def tcpReadsome (cut : ℕ → ℕ) (len : ℕ) : EStateM NetFault (Incoming κ) (List UInt8) := fun s =>
  if s.wire = [] then .error .eof s
  else
    let n := min (max 1 (cut s.calls)) len
    .ok (s.wire.take n) { s with wire := s.wire.drop n, calls := s.calls + 1 }

section Readsome

variable (C : Cipher κ) (I : ReadAll NetFault (Incoming κ) UInt8) (cut : ℕ → ℕ)

/-- `_recv_aes.decode` -/
def decodePiece (bytes : List UInt8) : EStateM NetFault (Incoming κ) (List UInt8) := fun s =>
  .ok (C.decode s.recvAes bytes).1
    { s with recvAes := (C.decode s.recvAes bytes).2, pieces := s.pieces ++ [bytes.length] }

/-- `stcp_socket::readsome` -/
def readsome (len : ℕ) : EStateM NetFault (Incoming κ) (List UInt8) := do
  assert .aborted (0 < len ∧ len % 16 = 0)
  update fun s => { s with pieces := s.pieces ++ [len] }
  let len := min 4096 len
  let bytes ← tcpReadsome cut len
  if bytes.length % 16 ≠ 0 then do
    let rest ← I.read (tcpReadsome cut) (16 - bytes.length % 16)
    decodePiece C (bytes ++ rest)
  else decodePiece C bytes

end Readsome

/-! ### What is read -/

/-- The plain text of the complete blocks on the wire. -/
def Incoming.plain (C : Cipher κ) (s : Incoming κ) : List UInt8 :=
  (C.decode s.recvAes (s.wire.take (16 * (s.wire.length / 16)))).1

/-- Only the TCP stream is read. -/
def OnlyTcp (s s' : Incoming κ) : Prop := ∃ n, s' = { s with wire := s.wire.drop n, calls := s'.calls }

/-- Only the socket is read, in multiples of 16 bytes. -/
structure OnlySocket (s s' : Incoming κ) : Prop where
  reads : s'.reads = s.reads
  bytesReceived : s'.bytesReceived = s.bytesReceived
  delivered : s'.delivered = s.delivered
  connectionClosed : s'.connectionClosed = s.connectionClosed
  pieces : ∃ ps, s'.pieces = s.pieces ++ ps ∧ ∀ n ∈ ps, 16 ∣ n

/-- The wire has come to its end. -/
def AtEnd (s : Incoming κ) : Prop := s.wire = []

section Supplies

variable {C : Cipher κ} {cut : ℕ → ℕ} {s s' : Incoming κ}

theorem OnlySocket.refl (s : Incoming κ) : OnlySocket s s :=
  ⟨rfl, rfl, rfl, rfl, [], (List.append_nil _).symm, fun _ h => absurd h List.not_mem_nil⟩

theorem OnlySocket.trans {s₁ s₂ s₃ : Incoming κ} (h : OnlySocket s₁ s₂) (h' : OnlySocket s₂ s₃) :
    OnlySocket s₁ s₃ := by
  obtain ⟨ps, hps, hdvd⟩ := h.pieces
  obtain ⟨ps', hps', hdvd'⟩ := h'.pieces
  refine ⟨h'.reads.trans h.reads, h'.bytesReceived.trans h.bytesReceived, h'.delivered.trans h.delivered,
    h'.connectionClosed.trans h.connectionClosed, ps ++ ps', ?_, fun n hn => ?_⟩
  · rw [hps', hps, List.append_assoc]
  · exact (List.mem_append.mp hn).elim (hdvd n) (hdvd' n)

theorem OnlyTcp.onlySocket (h : OnlyTcp s s') : OnlySocket s s' := by
  obtain ⟨n, hs'⟩ := h
  rw [hs']
  exact ⟨rfl, rfl, rfl, rfl, [], (List.append_nil _).symm, fun _ h => absurd h List.not_mem_nil⟩

/-- The TCP stream supplies its bytes, in any pieces. -/
theorem supplies_tcpReadsome (cut : ℕ → ℕ) :
    Supplies (tcpReadsome cut) 1 .eof (Incoming.wire (κ := κ)) AtEnd OnlyTcp where
  next {n} s hn _ := by
    by_cases hempty : s.wire = []
    · refine .inr ⟨s, if_pos hempty, ?_, hempty, 0, rfl⟩
      rw [hempty]
      exact hn
    · have hpos : 0 < min (max 1 (cut s.calls)) n := lt_min (Nat.lt_of_lt_of_le Nat.one_pos (le_max_left _ _)) hn
      have hwire : 0 < s.wire.length := List.length_pos_iff.mpr hempty
      refine .inl ⟨_, _, if_neg hempty, ?_, ?_, one_dvd _, (List.take_append_drop _ _).symm, _, rfl⟩
      · rw [← List.length_pos_iff, List.length_take]
        exact lt_min hpos hwire
      · rw [List.length_take]
        exact (min_le_left _ _).trans (min_le_right _ _)
  refl s := ⟨0, rfl⟩
  trans := by
    rintro s₁ s₂ s₃ ⟨n, h⟩ ⟨m, h'⟩
    refine ⟨n + m, ?_⟩
    rw [h', h, List.drop_drop]

theorem length_plain (C : Cipher κ) (s : Incoming κ) : (s.plain C).length = 16 * (s.wire.length / 16) := by
  have hle : 16 * (s.wire.length / 16) ≤ s.wire.length := Nat.mul_div_le _ _
  have hlen : (s.wire.take (16 * (s.wire.length / 16))).length = 16 * (s.wire.length / 16) :=
    List.length_take_of_le hle
  have hblocks : 16 ∣ (s.wire.take (16 * (s.wire.length / 16))).length := by
    rw [hlen]
    exact Nat.dvd_mul_right _ _
  exact (C.length_decode _ hblocks).trans hlen

/-- Complete blocks at the front are decoded first. -/
theorem plain_eq_append {bytes : List UInt8} (hwire : s.wire = bytes ++ s'.wire) (hbytes : 16 ∣ bytes.length)
    (haes : s'.recvAes = (C.decode s.recvAes bytes).2) :
    s.plain C = (C.decode s.recvAes bytes).1 ++ s'.plain C := by
  have htake : s.wire.take (16 * (s.wire.length / 16)) =
      bytes ++ s'.wire.take (16 * (s'.wire.length / 16)) := by
    obtain ⟨k, hk⟩ := hbytes
    have hblocks : 16 * (s.wire.length / 16) = bytes.length + 16 * (s'.wire.length / 16) := by
      rw [hwire, List.length_append, hk, Nat.mul_add_div (by decide), Nat.mul_add]
    rw [hblocks, hwire, List.take_length_add_append]
  unfold Incoming.plain
  rw [htake, C.decode_append _ _ hbytes, haes]

/-- What is done with the bytes of some complete blocks. -/
theorem decodePiece_spec {bytes : List UInt8} (htcp : OnlyTcp s s') (hwire : s.wire = bytes ++ s'.wire)
    (hbytes : 16 ∣ bytes.length) : ∃ s'', decodePiece C bytes s' = .ok (C.decode s.recvAes bytes).1 s'' ∧
      s.plain C = (C.decode s.recvAes bytes).1 ++ s''.plain C ∧ OnlySocket s s'' := by
  have haes : s'.recvAes = s.recvAes := by
    obtain ⟨n, hs'⟩ := htcp
    rw [hs']
  refine ⟨{ s' with recvAes := (C.decode s.recvAes bytes).2, pieces := s'.pieces ++ [bytes.length] }, ?_, ?_,
    htcp.onlySocket.trans ⟨rfl, rfl, rfl, rfl, [bytes.length], rfl, fun n hn => ?_⟩⟩
  · unfold decodePiece
    rw [haes]
  · exact plain_eq_append hwire hbytes rfl
  · rw [List.mem_singleton.mp hn]
    exact hbytes

/-- The bytes that `readsome` decodes: what has come, and the rest of its last block. -/
theorem readsome_eq (C : Cipher κ) (I : ReadAll NetFault (Incoming κ) UInt8) (cut : ℕ → ℕ) {len : ℕ} (hlen : 0 < len)
    (hdvd : 16 ∣ len) (s : Incoming κ) : readsome C I cut len s =
      (tcpReadsome cut (min 4096 len) >>= fun bytes =>
        if bytes.length % 16 ≠ 0 then
          I.read (tcpReadsome cut) (16 - bytes.length % 16) >>= fun rest => decodePiece C (bytes ++ rest)
        else decodePiece C bytes) { s with pieces := s.pieces ++ [len] } := by
  unfold readsome
  have hassert : (assert .aborted (0 < len ∧ len % 16 = 0) : EStateM NetFault (Incoming κ) Unit) = pure () :=
    if_pos ⟨hlen, Nat.mod_eq_zero_of_dvd hdvd⟩
  rw [hassert]
  rfl

/-- **The socket supplies the plain text**, in multiples of 16 bytes. -/
theorem supplies_readsome (C : Cipher κ) (I : ReadAll NetFault (Incoming κ) UInt8) (cut : ℕ → ℕ) :
    Supplies (readsome C I cut) 16 .eof (Incoming.plain C) AtEnd OnlySocket where
  next {n} s hn hdvd := by
    have hasked : OnlySocket s { s with pieces := s.pieces ++ [n] } :=
      ⟨rfl, rfl, rfl, rfl, [n], rfl, fun m hm => List.mem_singleton.mp hm ▸ hdvd⟩
    rw [readsome_eq C I cut hn hdvd]
    change (∃ xs s', _ ∧ _ ∧ _ ∧ _ ∧ Incoming.plain C { s with pieces := s.pieces ++ [n] } = _ ∧ _) ∨
      ∃ s', _ ∧ (Incoming.plain C { s with pieces := s.pieces ++ [n] }).length < n ∧ _
    generalize { s with pieces := s.pieces ++ [n] } = s₀ at hasked
    have hlen : 0 < min 4096 n ∧ 16 ∣ min 4096 n ∧ min 4096 n ≤ n := by omega
    obtain ⟨hpos, hmin, hle⟩ := hlen
    have hshort : ∀ {m}, s₀.wire.length < m → m ≤ n → (s₀.plain C).length < n := by
      intro m hm hmn
      rw [length_plain]
      omega
    have htcp := supplies_tcpReadsome (κ := κ) cut
    rw [bind_apply]
    rcases htcp.next s₀ hpos (one_dvd _) with
      ⟨bytes, s₁, hread, hne, hbytes, -, hwire, honly⟩ | ⟨s', hread, hfew, hend, honly⟩
    · rw [hread]
      show (∃ xs s', (if bytes.length % 16 ≠ 0 then _ else _ : EStateM NetFault (Incoming κ) (List UInt8)) s₁ = _ ∧ _) ∨
        ∃ s', (if bytes.length % 16 ≠ 0 then _ else _ : EStateM NetFault (Incoming κ) (List UInt8)) s₁ = _ ∧ _
      have hsize : 0 < bytes.length := List.length_pos_iff.mpr hne
      by_cases hpart : bytes.length % 16 ≠ 0
      · -- the last block has come in part
        rw [if_pos hpart, bind_apply]
        have hcomplete : 16 ∣ bytes.length + (16 - bytes.length % 16) ∧
            bytes.length + (16 - bytes.length % 16) ≤ min 4096 n := by omega
        have htotal : s₀.wire.length = bytes.length + s₁.wire.length := by rw [hwire, List.length_append]
        rcases htcp.read I (one_dvd (16 - bytes.length % 16)) (s := s₁) with
          ⟨henough, s₂, hrest, hwire', honly'⟩ | ⟨hfew, s₂, hrest, hend, honly'⟩
        · have hlength : (s₁.wire.take (16 - bytes.length % 16)).length = 16 - bytes.length % 16 :=
            List.length_take_of_le henough
          have hblocks : 16 ∣ (bytes ++ s₁.wire.take (16 - bytes.length % 16)).length := by
            rw [List.length_append, hlength]
            exact hcomplete.1
          obtain ⟨s₃, hdecode, hplain, honly₃⟩ := decodePiece_spec (C := C) (htcp.trans honly honly')
            (by rw [hwire, hwire', List.append_assoc, List.take_append_drop]) hblocks
          have hdecoded := C.length_decode s₀.recvAes hblocks
          rw [List.length_append, hlength] at hdecoded
          refine .inl ⟨_, s₃, by rw [hrest]; exact hdecode, ?_, ?_, ?_, hplain, hasked.trans honly₃⟩
          · rw [← List.length_pos_iff, hdecoded]
            omega
          · rw [hdecoded]
            omega
          · rw [hdecoded]
            exact hcomplete.1
        · refine .inr ⟨s₂, by rw [hrest], hshort (m := bytes.length + (16 - bytes.length % 16)) ?_ ?_, hend,
            hasked.trans (htcp.trans honly honly').onlySocket⟩
          · omega
          · omega
      · rw [if_neg hpart]
        have hblocks : 16 ∣ bytes.length := Nat.dvd_of_mod_eq_zero (not_not.mp hpart)
        obtain ⟨s₃, hdecode, hplain, honly₃⟩ := decodePiece_spec (C := C) honly hwire hblocks
        have hdecoded := C.length_decode s₀.recvAes hblocks
        refine .inl ⟨_, s₃, hdecode, ?_, ?_, ?_, hplain, hasked.trans honly₃⟩
        · rw [← List.length_pos_iff, hdecoded]
          exact hsize
        · rw [hdecoded]
          omega
        · rw [hdecoded]
          exact hblocks
    · rw [hread]
      exact .inr ⟨_, rfl, hshort hfew hle, hend, hasked.trans honly.onlySocket⟩
  refl := OnlySocket.refl
  trans := OnlySocket.trans

end Supplies

/-! ### Writing -/

/-- The sending side of a connection. -/
structure Outgoing (κ : Type) where
  /-- The bytes that were given to the TCP stream. -/
  wire : List UInt8 := []
  sendAes : κ
  /-- The numbers of bytes that `writesome` was given, and that it returned. -/
  pieces : List ℕ := []
  bytesSent : ℕ := 0

/-- `stcp_socket::writesome` -/
def writesome (C : Cipher κ) (buffer : List UInt8) : EStateM NetFault (Outgoing κ) ℕ := do
  assert .aborted (0 < buffer.length ∧ buffer.length % 16 = 0)
  let len := min 4096 buffer.length
  let s ← get
  let (ciphertext, sendAes) := C.encode s.sendAes (buffer.take len)
  assert .aborted (ciphertext.length = len)
  set { s with
    wire := s.wire ++ ciphertext, sendAes := sendAes
    pieces := s.pieces ++ [buffer.length, ciphertext.length] }
  return ciphertext.length

/-- What has been written since a state of the socket. -/
structure Written (C : Cipher κ) (s₀ : Outgoing κ) (text : List UInt8) (s : Outgoing κ) : Prop where
  aligned : 16 ∣ text.length
  wire : s.wire = s₀.wire ++ (C.encode s₀.sendAes text).1
  sendAes : s.sendAes = (C.encode s₀.sendAes text).2
  pieces : ∃ ps, s.pieces = s₀.pieces ++ ps ∧ ∀ n ∈ ps, 16 ∣ n

section Writesome

variable {C : Cipher κ} {s₀ s : Outgoing κ} {done xs : List UInt8}

theorem Written.nil (C : Cipher κ) (s : Outgoing κ) : Written C s [] s := by
  refine ⟨Nat.dvd_zero _, ?_, ?_, [], (List.append_nil _).symm, fun _ h => absurd h List.not_mem_nil⟩
  · rw [C.encode_nil, List.append_nil]
  · rw [C.encode_nil]

/-- The state after some bytes have been encrypted and written. -/
def afterWrite (C : Cipher κ) (s : Outgoing κ) (asked : ℕ) (bytes : List UInt8) : Outgoing κ :=
  { s with
    wire := s.wire ++ (C.encode s.sendAes bytes).1
    sendAes := (C.encode s.sendAes bytes).2
    pieces := s.pieces ++ [asked, bytes.length] }

/-- At most 4096 bytes are written at a time. -/
theorem writesome_eq (s : Outgoing κ) (hne : xs ≠ []) (hxs : 16 ∣ xs.length) :
    writesome C xs s = .ok (min 4096 xs.length) (afterWrite C s xs.length (xs.take (min 4096 xs.length))) := by
  have hpos : 0 < xs.length := List.length_pos_iff.mpr hne
  have htake : (xs.take (min 4096 xs.length)).length = min 4096 xs.length :=
    List.length_take_of_le (min_le_right _ _)
  have hcipher : (C.encode s.sendAes (xs.take (min 4096 xs.length))).1.length = min 4096 xs.length := by
    refine (C.length_encode _ ?_).trans htake
    rw [htake]
    omega
  have hassert : (assert .aborted (0 < xs.length ∧ xs.length % 16 = 0) : EStateM NetFault (Outgoing κ) Unit) =
      pure () := if_pos ⟨hpos, Nat.mod_eq_zero_of_dvd hxs⟩
  have hassert' : (assert .aborted ((C.encode s.sendAes (xs.take (min 4096 xs.length))).1.length =
      min 4096 xs.length) : EStateM NetFault (Outgoing κ) Unit) = pure () := if_pos hcipher
  unfold writesome afterWrite
  rw [hassert, pure_bind_apply, htake]
  show ((assert .aborted ((C.encode s.sendAes (xs.take (min 4096 xs.length))).1.length =
    min 4096 xs.length) : EStateM NetFault (Outgoing κ) Unit) >>= fun _ => _) s = _
  rw [hassert', pure_bind_apply]
  simp only [hcipher]
  rfl

/-- The socket writes the cipher text, in multiples of 16 bytes. -/
theorem writesome_spec (h : Written C s₀ done s) (hne : xs ≠ []) (hxs : 16 ∣ xs.length) :
    ∃ k s', writesome C xs s = .ok k s' ∧ 0 < k ∧ k ≤ xs.length ∧ 16 ∣ k ∧
      Written C s₀ (done ++ xs.take k) s' ∧ s'.bytesSent = s.bytesSent := by
  have hpos : 0 < xs.length := List.length_pos_iff.mpr hne
  have hlen : 0 < min 4096 xs.length ∧ min 4096 xs.length ≤ xs.length ∧ 16 ∣ min 4096 xs.length := by omega
  obtain ⟨hk, hle, hdvd⟩ := hlen
  have htake : (xs.take (min 4096 xs.length)).length = min 4096 xs.length := List.length_take_of_le hle
  obtain ⟨ps, hps, hpsdvd⟩ := h.pieces
  refine ⟨_, _, writesome_eq s hne hxs, hk, hle, hdvd, ⟨?_, ?_, ?_, ?_⟩, rfl⟩
  · rw [List.length_append, htake]
    exact Nat.dvd_add h.aligned hdvd
  · rw [afterWrite, C.encode_append _ _ h.aligned, h.wire, h.sendAes, List.append_assoc]
  · rw [afterWrite, C.encode_append _ _ h.aligned, h.sendAes]
  · refine ⟨ps ++ [xs.length, min 4096 xs.length], ?_, fun n hn => ?_⟩
    · rw [afterWrite, hps, htake, List.append_assoc]
    · rcases List.mem_append.mp hn with hn | hn
      · exact hpsdvd n hn
      · rcases List.mem_cons.mp hn with rfl | hn
        · exact hxs
        · rw [List.mem_singleton.mp hn]
          exact hdvd

end Writesome

end FinChain.Net
