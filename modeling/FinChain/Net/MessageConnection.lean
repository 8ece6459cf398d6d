import FinChain.Lib.Loops
import FinChain.Net.StcpSocket

/-!
# Messages on a connection

`send_message` writes the header and the data of a message, and pads them to a multiple of 16 bytes. `read_loop`
reads the first 16 bytes of a message, which have the header and perhaps some of the data, and then the rest with the
padding. It computes how much that is from what is left of the data after the first 16 bytes, in 32 bits; for the sizes that it
accepts this is the padding of the sender (`remaining_eq`).

A round of the loop is determined by the plain text on the wire: it ends the loop if that is too short
(`readRound_short`, `readRound_cut`) or declares a message that is too large (`readRound_tooLarge`), and otherwise gives the
delegate what the text says (`readRound_message`).
-/

namespace FinChain.Net

open Exec

variable {κ : Type}

/-- `MAX_MESSAGE_SIZE` -/
def MAX_MESSAGE_SIZE : UInt32 := 1024 * 1024 * 2

/-- `sizeof(message_header)` -/
def sizeofMessageHeader : ℕ := 8

/-- `BUFFER_SIZE` -/
def BUFFER_SIZE : ℕ := 16

/-- `LEFTOVER` -/
def LEFTOVER : ℕ := BUFFER_SIZE - sizeofMessageHeader

/-! ### Memory -/

/-- The bytes of a `uint32_t` in memory. -/
def memory (x : UInt32) : List UInt8 :=
  [UInt8.ofNat x.toNat, UInt8.ofNat (x.toNat / 256), UInt8.ofNat (x.toNat / 65536), UInt8.ofNat (x.toNat / 16777216)]

/-- The `uint32_t` that some bytes in memory are. -/
def ofMemory (bytes : List UInt8) : UInt32 :=
  UInt32.ofNat (bytes.foldr (fun b n => b.toNat + 256 * n) 0)

/-- The bytes of the header. -/
def Message.header (m : Message) : List UInt8 := memory m.size ++ memory m.msgType

/-- Bytes copied to the header. -/
def Message.setHeader (m : Message) (bytes : List UInt8) : Message :=
  { m with size := ofMemory (bytes.take 4), msgType := ofMemory ((bytes.drop 4).take 4) }

/-- Bytes copied to a place in a buffer. -/
def overwrite (buffer : List UInt8) (offset : ℕ) (bytes : List UInt8) : List UInt8 :=
  buffer.take offset ++ bytes ++ buffer.drop (offset + bytes.length)

/-- `std::vector<char>::resize` -/
def resize (data : List UInt8) (n : ℕ) : List UInt8 := data.take n ++ List.replicate (n - data.length) 0

theorem ofMemory_memory (x : UInt32) : ofMemory (memory x) = x := by
  have hx : x.toNat < 2 ^ 32 := x.toNat_lt
  unfold ofMemory memory
  rw [← UInt32.toNat_inj, UInt32.toNat_ofNat']
  simp only [List.foldr_cons, List.foldr_nil, UInt8.toNat_ofNat']
  omega

theorem length_header (m : Message) : m.header.length = sizeofMessageHeader := rfl

theorem length_resize (data : List UInt8) (n : ℕ) : (resize data n).length = n := by
  simp [resize]
  omega

theorem resize_of_le {data : List UInt8} {n : ℕ} (h : n ≤ data.length) : resize data n = data.take n := by
  rw [resize, Nat.sub_eq_zero_of_le h, List.replicate_zero, List.append_nil]

theorem overwrite_append {a b c bytes : List UInt8} (h : b.length = bytes.length) :
    overwrite (a ++ b ++ c) a.length bytes = a ++ bytes ++ c := by
  have htake : (a ++ b ++ c).take a.length = a := by rw [List.append_assoc, List.take_left]
  have hdrop : (a ++ b ++ c).drop (a.length + bytes.length) = c := by rw [← h, ← List.length_append, List.drop_left]
  rw [overwrite, htake, hdrop]

/-! ### Sending -/

/-- `send_message`. What is in the memory that it allocates is not known (`fresh`). -/
def sendMessage (C : Cipher κ) (O : WriteAll NetFault (Outgoing κ) UInt8) (messageToSend : Message)
    (fresh : ℕ → UInt8) : EStateM NetFault (Outgoing κ) Unit := do
  let sizeOfMessageAndHeader := sizeofMessageHeader + messageToSend.size.toNat
  let sizeWithPadding := 16 * ((sizeOfMessageAndHeader + 15) / 16)
  let paddedMessage := (List.range sizeWithPadding).map fresh
  let paddedMessage := overwrite paddedMessage 0 messageToSend.header
  let paddedMessage :=
    overwrite paddedMessage sizeofMessageHeader (messageToSend.data.take messageToSend.size.toNat)
  O.write (writesome C) paddedMessage
  update fun s => { s with bytesSent := s.bytesSent + sizeWithPadding }

/-- A message as it has to be: `size` is the size of the data, and not too large. -/
structure Message.Framed (m : Message) : Prop where
  length_data : m.data.length = m.size.toNat
  size_le : m.size ≤ MAX_MESSAGE_SIZE

/-! ### Receiving -/

/-- `on_message`: whether the delegate throws, and what. It may depend on the messages before. -/
abbrev Delegate := List Message → Message → Option NetFault

/-- `_delegate->on_message( _self, m )`; whatever it throws is thrown again. -/
def onMessage (delegate : Delegate) (m : Message) : EStateM NetFault (Incoming κ) Unit := fun s =>
  match delegate s.delivered m with
  | none => .ok () { s with delivered := s.delivered ++ [m] }
  | some e => .error e { s with delivered := s.delivered ++ [m] }

/-- `remaining_bytes_with_padding` -/
def remainingBytesWithPadding (size : UInt32) : ℕ := (16 * ((size - UInt32.ofNat LEFTOVER + 15) / 16)).toNat

section ReadLoop

variable (C : Cipher κ) (I : ReadAll NetFault (Incoming κ) UInt8) (cut : ℕ → ℕ) (delegate : Delegate)

/-- `_sock.read`, and then `_bytes_received += len` -/
def sockRead (len : ℕ) : EStateM NetFault (Incoming κ) (List UInt8) := do
  update fun s => { s with reads := s.reads ++ [len] }
  let bytes ← I.read (readsome C I cut) len
  update fun s => { s with bytesReceived := s.bytesReceived + len }
  return bytes

/-- A round of the loop in `read_loop`, with the message `m` of the round before. -/
def readRound (m : Message) : EStateM NetFault (Incoming κ) (Message ⊕ Empty) := do
  let buffer ← sockRead C I cut BUFFER_SIZE
  let m := m.setHeader (buffer.take sizeofMessageHeader)
  assert .assertion (m.size ≤ MAX_MESSAGE_SIZE)
  let remaining := remainingBytesWithPadding m.size
  let data := overwrite (resize m.data (LEFTOVER + remaining)) 0 (buffer.drop sizeofMessageHeader)
  let data ← if remaining ≠ 0 then do
      let rest ← sockRead C I cut remaining
      pure (overwrite data LEFTOVER rest)
    else pure data
  let m := { m with data := resize data m.size.toNat }
  onMessage delegate m
  return .inl m

/-- The `catch` clauses of `read_loop` and what follows them. -/
def onReadLoopEnd : NetFault → EStateM NetFault (Incoming κ) Unit
  | .canceled => throw .canceled
  | .eof => update fun s => { s with connectionClosed := true }
  | _ => do
    update fun s => { s with connectionClosed := true }
    throw .unhandled

/-- **`read_loop`** comes to its end with this result, from a message `m` that is not initialized. -/
def ReadLoop (m : Message) (s : Incoming κ) (r : EStateM.Result NetFault (Incoming κ) Unit) : Prop :=
  ∃ e s', Ends (readRound C I cut delegate) m s (.error e s') ∧ onReadLoopEnd e s' = r

end ReadLoop

/-! ### Padding -/

theorem remaining_eq {size : UInt32} (h : size ≤ MAX_MESSAGE_SIZE) :
    remainingBytesWithPadding size = 16 * ((size.toNat + 7) / 16) := by
  have hsize : size.toNat ≤ 2097152 := UInt32.le_iff_toNat_le.mp h
  have hleft : (UInt32.ofNat LEFTOVER).toNat = 8 := rfl
  have h15 : (15 : UInt32).toNat = 15 := rfl
  have h16 : (16 : UInt32).toNat = 16 := rfl
  unfold remainingBytesWithPadding
  rw [UInt32.toNat_mul, UInt32.toNat_div, UInt32.toNat_add, UInt32.toNat_sub, hleft, h15, h16]
  omega

/-- **Both sides pad alike**: the first 16 bytes and the rest are the whole message with its padding. -/
theorem padding_agrees {size : UInt32} (h : size ≤ MAX_MESSAGE_SIZE) :
    BUFFER_SIZE + remainingBytesWithPadding size = 16 * ((sizeofMessageHeader + size.toNat + 15) / 16) := by
  rw [remaining_eq h, BUFFER_SIZE, sizeofMessageHeader]
  omega

theorem dvd_remaining {size : UInt32} (h : size ≤ MAX_MESSAGE_SIZE) : 16 ∣ remainingBytesWithPadding size := by
  rw [remaining_eq h]
  exact Nat.dvd_mul_right _ _

/-- There is room for the data. -/
theorem size_le_room {size : UInt32} (h : size ≤ MAX_MESSAGE_SIZE) :
    size.toNat ≤ LEFTOVER + remainingBytesWithPadding size := by
  rw [remaining_eq h, LEFTOVER, BUFFER_SIZE, sizeofMessageHeader]
  omega

/-! ### One round -/

/-- **What has been read** since a state: which numbers of bytes were asked for, and how many bytes came. -/
structure HasRead (asked : List ℕ) (received : ℕ) (s s' : Incoming κ) : Prop where
  reads : s'.reads = s.reads ++ asked
  bytesReceived : s'.bytesReceived = s.bytesReceived + received
  delivered : s'.delivered = s.delivered
  connectionClosed : s'.connectionClosed = s.connectionClosed
  pieces : ∃ ps, s'.pieces = s.pieces ++ ps ∧ ∀ n ∈ ps, 16 ∣ n

/-- The size that the first bytes of some text declare. -/
def declaredSize (text : List UInt8) : UInt32 := ofMemory (text.take 4)

/-- The message that some text begins with. -/
def messageOf (text : List UInt8) : Message where
  size := declaredSize text
  msgType := ofMemory ((text.drop 4).take 4)
  data := (text.drop sizeofMessageHeader).take (declaredSize text).toNat

section Round

variable {C : Cipher κ} {I : ReadAll NetFault (Incoming κ) UInt8} {cut : ℕ → ℕ} {delegate : Delegate}
  {s s₁ s₂ : Incoming κ} {asked asked' : List ℕ} {received received' len : ℕ}

theorem HasRead.trans (h : HasRead asked received s s₁) (h' : HasRead asked' received' s₁ s₂) :
    HasRead (asked ++ asked') (received + received') s s₂ := by
  obtain ⟨ps, hps, hdvd⟩ := h.pieces
  obtain ⟨ps', hps', hdvd'⟩ := h'.pieces
  refine ⟨?_, ?_, h'.delivered.trans h.delivered, h'.connectionClosed.trans h.connectionClosed, ps ++ ps', ?_,
    fun n hn => (List.mem_append.mp hn).elim (hdvd n) (hdvd' n)⟩
  · rw [h'.reads, h.reads, List.append_assoc]
  · rw [h'.bytesReceived, h.bytesReceived, Nat.add_assoc]
  · rw [hps', hps, List.append_assoc]

/-- **A read of the loop**, if there is enough on the wire and if there is not. -/
theorem sockRead_spec (C : Cipher κ) (I : ReadAll NetFault (Incoming κ) UInt8) (cut : ℕ → ℕ) (s : Incoming κ)
    (hlen : 16 ∣ len) :
    (len ≤ (s.plain C).length ∧ ∃ s', sockRead C I cut len s = .ok ((s.plain C).take len) s' ∧
      s'.plain C = (s.plain C).drop len ∧ HasRead [len] len s s') ∨
    ((s.plain C).length < len ∧ ∃ s', sockRead C I cut len s = .error .eof s' ∧ AtEnd s' ∧
      HasRead [len] 0 s s') := by
  have hread := (supplies_readsome C I cut).read I hlen (s := { s with reads := s.reads ++ [len] })
  change (len ≤ (s.plain C).length ∧ ∃ s', I.read _ len _ = .ok ((s.plain C).take len) s' ∧
      s'.plain C = (s.plain C).drop len ∧ _) ∨ ((s.plain C).length < len ∧ _) at hread
  unfold sockRead
  rcases hread with ⟨henough, s', hread, hplain, honly⟩ | ⟨hshort, s', hread, hend, honly⟩
  · refine .inl ⟨henough, { s' with bytesReceived := s'.bytesReceived + len }, ?_, hplain, honly.reads, ?_,
      honly.delivered, honly.connectionClosed, honly.pieces⟩
    · rw [update_bind, bind_apply, hread]
      rfl
    · rw [honly.bytesReceived]
  · refine .inr ⟨hshort, s', ?_, hend, honly.reads, honly.bytesReceived, honly.delivered, honly.connectionClosed,
      honly.pieces⟩
    rw [update_bind, bind_apply, hread]

/-- The first read of a round, and what is made of it. -/
theorem readRound_eq {m : Message} (hfirst : sockRead C I cut BUFFER_SIZE s = .ok ((s.plain C).take BUFFER_SIZE) s₁) :
    readRound C I cut delegate m s =
      (assert .assertion (declaredSize (s.plain C) ≤ MAX_MESSAGE_SIZE) >>= fun _ => do
        let remaining := remainingBytesWithPadding (declaredSize (s.plain C))
        let data := overwrite (resize m.data (LEFTOVER + remaining)) 0
          (((s.plain C).take BUFFER_SIZE).drop sizeofMessageHeader)
        let data ← if remaining ≠ 0 then do
            let rest ← sockRead C I cut remaining
            pure (overwrite data LEFTOVER rest)
          else pure data
        let m : Message := ⟨declaredSize (s.plain C), (messageOf (s.plain C)).msgType,
          resize data (declaredSize (s.plain C)).toNat⟩
        onMessage delegate m
        return .inl m) s₁ := by
  have hsize : (((s.plain C).take BUFFER_SIZE).take sizeofMessageHeader).take 4 = (s.plain C).take 4 := by
    rw [List.take_take, List.take_take]
    rfl
  have htype : ((((s.plain C).take BUFFER_SIZE).take sizeofMessageHeader).drop 4).take 4 =
      ((s.plain C).drop 4).take 4 := by
    rw [List.take_take, List.drop_take, List.take_take]
    rfl
  have hheader : m.setHeader (((s.plain C).take BUFFER_SIZE).take sizeofMessageHeader) =
      ⟨declaredSize (s.plain C), (messageOf (s.plain C)).msgType, m.data⟩ := by
    unfold Message.setHeader messageOf declaredSize
    rw [hsize, htype]
  unfold readRound
  rw [bind_apply, hfirst]
  show (assert .assertion ((m.setHeader _).size ≤ MAX_MESSAGE_SIZE) >>= fun _ => _ :
    EStateM NetFault (Incoming κ) (Message ⊕ Empty)) s₁ = _
  rw [hheader]

/-- The wire ends before the first 16 bytes of a message are there. -/
theorem readRound_short (C : Cipher κ) (I : ReadAll NetFault (Incoming κ) UInt8) (cut : ℕ → ℕ)
    (delegate : Delegate) (m : Message) (hshort : (s.plain C).length < BUFFER_SIZE) :
    ∃ s', readRound C I cut delegate m s = .error .eof s' ∧ AtEnd s' ∧ HasRead [BUFFER_SIZE] 0 s s' := by
  rcases sockRead_spec C I cut s (show 16 ∣ BUFFER_SIZE by decide) with ⟨henough, -⟩ | ⟨-, s', hread, hend, hhas⟩
  · exact absurd hshort (Nat.not_lt.mpr henough)
  · refine ⟨s', ?_, hend, hhas⟩
    unfold readRound
    rw [bind_apply, hread]

/-- **A message that is too large** ends the loop, and nothing more is read. -/
theorem readRound_tooLarge (C : Cipher κ) (I : ReadAll NetFault (Incoming κ) UInt8) (cut : ℕ → ℕ)
    (delegate : Delegate) (m : Message) (henough : BUFFER_SIZE ≤ (s.plain C).length)
    (hsize : ¬ declaredSize (s.plain C) ≤ MAX_MESSAGE_SIZE) :
    ∃ s', readRound C I cut delegate m s = .error .assertion s' ∧ s'.plain C = (s.plain C).drop BUFFER_SIZE ∧
      HasRead [BUFFER_SIZE] BUFFER_SIZE s s' := by
  rcases sockRead_spec C I cut s (show 16 ∣ BUFFER_SIZE by decide) with ⟨-, s₁, hread, hplain, hhas⟩ | ⟨hshort, -⟩
  · refine ⟨s₁, ?_, hplain, hhas⟩
    have hassert : (assert .assertion (declaredSize (s.plain C) ≤ MAX_MESSAGE_SIZE) :
        EStateM NetFault (Incoming κ) Unit) = throw .assertion := if_neg hsize
    rw [readRound_eq hread, hassert]
    rfl
  · exact absurd henough (Nat.not_le.mpr hshort)

/-- The message in the buffer after the first 16 bytes. -/
theorem overwrite_first {text : List UInt8} (henough : BUFFER_SIZE ≤ text.length) (old : List UInt8) (n : ℕ) :
    ∃ room, room.length = n ∧ overwrite (resize old (LEFTOVER + n)) 0 ((text.take BUFFER_SIZE).drop sizeofMessageHeader) =
      (text.drop sizeofMessageHeader).take LEFTOVER ++ room := by
  have hleft : (text.take BUFFER_SIZE).drop sizeofMessageHeader = (text.drop sizeofMessageHeader).take LEFTOVER :=
    List.drop_take
  have hlen : ((text.drop sizeofMessageHeader).take LEFTOVER).length = LEFTOVER := by
    rw [List.length_take_of_le]
    rw [List.length_drop]
    exact Nat.sub_le_sub_right henough _
  refine ⟨(resize old (LEFTOVER + n)).drop LEFTOVER, ?_, ?_⟩
  · rw [List.length_drop, length_resize, Nat.add_sub_cancel_left]
  · rw [hleft, overwrite, hlen, List.take_zero, List.nil_append, Nat.zero_add]

/-- The rest of the message in the buffer. -/
theorem overwrite_rest {text room : List UInt8} {n : ℕ} (henough : BUFFER_SIZE + n ≤ text.length)
    (hroom : room.length = n) : overwrite ((text.drop sizeofMessageHeader).take LEFTOVER ++ room) LEFTOVER
      ((text.drop BUFFER_SIZE).take n) = (text.drop sizeofMessageHeader).take (LEFTOVER + n) := by
  have hlen : ((text.drop sizeofMessageHeader).take LEFTOVER).length = LEFTOVER := by
    rw [List.length_take_of_le]
    rw [List.length_drop]
    exact Nat.sub_le_sub_right ((Nat.le_add_right _ _).trans henough) _
  have hrest : ((text.drop BUFFER_SIZE).take n).length = n := by
    rw [List.length_take_of_le]
    rw [List.length_drop]
    omega
  have hsplit : (text.drop sizeofMessageHeader).take (LEFTOVER + n) =
      (text.drop sizeofMessageHeader).take LEFTOVER ++ (text.drop BUFFER_SIZE).take n := by
    rw [List.take_add, List.drop_drop]
    rfl
  have hover := overwrite_append (a := (text.drop sizeofMessageHeader).take LEFTOVER) (b := room) (c := [])
    (show _ = ((text.drop BUFFER_SIZE).take n).length from hroom.trans hrest.symm)
  rw [hlen, List.append_nil, List.append_nil] at hover
  rw [hover, hsplit]

/-- What is cut off is the padding. -/
theorem resize_take {text : List UInt8} {n k : ℕ} (henough : k + n ≤ text.length) {size : ℕ} (hsize : size ≤ n) :
    resize ((text.drop k).take n) size = (text.drop k).take size := by
  have hlen : ((text.drop k).take n).length = n := by
    rw [List.length_take_of_le]
    rw [List.length_drop]
    omega
  rw [resize_of_le (hlen.symm ▸ hsize), List.take_take, Nat.min_eq_left hsize]

/-- The rest of the message is not there. -/
theorem readRound_cut (C : Cipher κ) (I : ReadAll NetFault (Incoming κ) UInt8) (cut : ℕ → ℕ)
    (delegate : Delegate) (m : Message) (henough : BUFFER_SIZE ≤ (s.plain C).length)
    (hsize : declaredSize (s.plain C) ≤ MAX_MESSAGE_SIZE)
    (hshort : (s.plain C).length < BUFFER_SIZE + remainingBytesWithPadding (declaredSize (s.plain C))) :
    ∃ s' asked, readRound C I cut delegate m s = .error .eof s' ∧ AtEnd s' ∧ HasRead asked BUFFER_SIZE s s' ∧
      ∀ n ∈ asked, 16 ∣ n := by
  rcases sockRead_spec C I cut s (show 16 ∣ BUFFER_SIZE by decide) with ⟨-, s₁, hread, hplain, hhas⟩ | ⟨hfew, -⟩
  · have hassert : (assert .assertion (declaredSize (s.plain C) ≤ MAX_MESSAGE_SIZE) :
        EStateM NetFault (Incoming κ) Unit) = pure () := if_pos hsize
    have hne : remainingBytesWithPadding (declaredSize (s.plain C)) ≠ 0 := by omega
    have hlen₁ : (s₁.plain C).length = (s.plain C).length - BUFFER_SIZE := by rw [hplain, List.length_drop]
    rcases sockRead_spec C I cut s₁ (dvd_remaining hsize) with ⟨hmore, -⟩ | ⟨-, s₂, hread₂, hend, hhas₂⟩
    · omega
    · refine ⟨s₂, _, ?_, hend, hhas.trans hhas₂, fun n hn => ?_⟩
      · rw [readRound_eq hread, hassert, pure_bind_apply]
        simp only [if_pos hne]
        rw [bind_apply, hread₂]
      · rcases List.mem_cons.mp hn with rfl | hn
        · decide
        · rw [List.mem_singleton.mp hn]
          exact dvd_remaining hsize
  · exact absurd henough (Nat.not_le.mpr hfew)

/-- **A complete message** is given to the delegate as it is in the text, whatever the message before was. -/
theorem readRound_message (C : Cipher κ) (I : ReadAll NetFault (Incoming κ) UInt8) (cut : ℕ → ℕ)
    (delegate : Delegate) (m : Message) (hsize : declaredSize (s.plain C) ≤ MAX_MESSAGE_SIZE)
    (henough : BUFFER_SIZE + remainingBytesWithPadding (declaredSize (s.plain C)) ≤ (s.plain C).length) :
    ∃ s' asked, readRound C I cut delegate m s =
        (onMessage delegate (messageOf (s.plain C)) >>= fun _ => pure (.inl (messageOf (s.plain C)))) s' ∧
      s'.plain C = (s.plain C).drop (BUFFER_SIZE + remainingBytesWithPadding (declaredSize (s.plain C))) ∧
      HasRead asked (BUFFER_SIZE + remainingBytesWithPadding (declaredSize (s.plain C))) s s' ∧
      ∀ n ∈ asked, 16 ∣ n := by
  have hfirst : BUFFER_SIZE ≤ (s.plain C).length := (Nat.le_add_right _ _).trans henough
  rcases sockRead_spec C I cut s (show 16 ∣ BUFFER_SIZE by decide) with ⟨-, s₁, hread, hplain, hhas⟩ | ⟨hfew, -⟩
  · have hassert : (assert .assertion (declaredSize (s.plain C) ≤ MAX_MESSAGE_SIZE) :
        EStateM NetFault (Incoming κ) Unit) = pure () := if_pos hsize
    have hlen₁ : (s₁.plain C).length = (s.plain C).length - BUFFER_SIZE := by rw [hplain, List.length_drop]
    obtain ⟨room, hroom, hover⟩ :=
      overwrite_first hfirst m.data (remainingBytesWithPadding (declaredSize (s.plain C)))
    have hdata : resize (((s.plain C).drop sizeofMessageHeader).take
        (LEFTOVER + remainingBytesWithPadding (declaredSize (s.plain C)))) (declaredSize (s.plain C)).toNat =
        (messageOf (s.plain C)).data := by
      refine resize_take ?_ (size_le_room hsize)
      rw [← Nat.add_assoc]
      exact henough
    by_cases hne : remainingBytesWithPadding (declaredSize (s.plain C)) ≠ 0
    · rcases sockRead_spec C I cut s₁ (dvd_remaining hsize) with ⟨-, s₂, hread₂, hplain₂, hhas₂⟩ | ⟨hfew, -⟩
      · refine ⟨s₂, _, ?_, ?_, hhas.trans hhas₂, fun n hn => ?_⟩
        · rw [readRound_eq hread, hassert, pure_bind_apply]
          simp only [if_pos hne]
          rw [bind_apply, hread₂, hover, hplain]
          simp only [pure_bind_apply]
          rw [overwrite_rest henough hroom, hdata]
          rfl
        · rw [hplain₂, hplain, List.drop_drop]
        · rcases List.mem_cons.mp hn with rfl | hn
          · decide
          · rw [List.mem_singleton.mp hn]
            exact dvd_remaining hsize
      · omega
    · -- the first 16 bytes are the whole message
      have hzero := not_not.mp hne
      refine ⟨s₁, [BUFFER_SIZE], ?_, ?_, ?_, fun n hn => ?_⟩
      · have hnone : room = [] := List.eq_nil_of_length_eq_zero (hroom.trans hzero)
        rw [readRound_eq hread, hassert, pure_bind_apply]
        simp only [if_neg hne]
        rw [hover, hnone, List.append_nil, pure_bind_apply]
        rw [hzero] at hdata
        rw [Nat.add_zero] at hdata
        rw [hdata]
        rfl
      · rw [hplain, hzero]
        rfl
      · rw [hzero]
        exact hhas
      · rw [List.mem_singleton.mp hn]
        decide
  · exact absurd hfirst (Nat.not_le.mpr hfew)

end Round

end FinChain.Net
