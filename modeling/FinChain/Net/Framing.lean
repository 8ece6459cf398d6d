import FinChain.Net.MessageConnection

/-!
# Framing

Whatever messages are sent, and however the TCP stream is cut into pieces, the loop on the other side gives its delegate
exactly these messages, and reads exactly the bytes that were written (`ends_frames`). Of any other bytes it makes
messages that have as much data as they declare (`ends_received`), and it stops at a header that declares too
much.
-/

namespace FinChain.Net

open Exec

variable {κ : Type}

/-! ### What is sent -/

/-- The text of a message. -/
def Message.frame (m : Message) (padding : List UInt8) : List UInt8 := m.header ++ m.data ++ padding

/-- The text of some messages, one after the other. -/
inductive Frames : List Message → List UInt8 → Prop
  | nil : Frames [] []
  | cons {m : Message} {padding text : List UInt8} {messages : List Message} (hframed : m.Framed)
      (hlength : (m.frame padding).length = BUFFER_SIZE + remainingBytesWithPadding m.size)
      (hrest : Frames messages text) : Frames (m :: messages) (m.frame padding ++ text)

section Sending

variable {C : Cipher κ} {O : WriteAll NetFault (Outgoing κ) UInt8} {m : Message} {fresh : ℕ → UInt8}
  {s₀ s : Outgoing κ} {text : List UInt8}

/-- What is copied into the memory that was allocated. -/
theorem overwrite_frame (hframed : m.Framed) (fresh : ℕ → UInt8) {n : ℕ}
    (hn : n = 16 * ((sizeofMessageHeader + m.size.toNat + 15) / 16)) : ∃ padding,
      overwrite (overwrite ((List.range n).map fresh) 0 m.header) sizeofMessageHeader
        (m.data.take m.size.toNat) = m.frame padding ∧ (m.frame padding).length = n := by
  have hdata : m.data.take m.size.toNat = m.data := by rw [← hframed.length_data, List.take_length]
  have hroom : sizeofMessageHeader + m.data.length ≤ n := by
    rw [hframed.length_data, hn]
    omega
  have hlen : ((List.range n).map fresh).length = n := by rw [List.length_map, List.length_range]
  generalize (List.range n).map fresh = memory at hlen
  have hfirst : overwrite memory 0 m.header = m.header ++ memory.drop sizeofMessageHeader := by
    rw [overwrite, length_header, List.take_zero, List.nil_append, Nat.zero_add]
  have hsecond := overwrite_append (a := m.header) (b := (memory.drop sizeofMessageHeader).take m.data.length)
    (c := (memory.drop sizeofMessageHeader).drop m.data.length) (show _ = m.data.length by
      rw [List.length_take_of_le]
      rw [List.length_drop, hlen]
      omega)
  rw [List.append_assoc, List.take_append_drop, length_header] at hsecond
  refine ⟨(memory.drop sizeofMessageHeader).drop m.data.length, ?_, ?_⟩
  · rw [hdata, hfirst, hsecond]
    rfl
  · rw [Message.frame, List.length_append, List.length_append, length_header, List.length_drop, List.length_drop,
      hlen]
    omega

theorem sendMessage_spec (hframed : m.Framed) (fresh : ℕ → UInt8) (h : Written C s₀ text s) :
    ∃ s' padding, sendMessage C O m fresh s = .ok () s' ∧ Written C s₀ (text ++ m.frame padding) s' ∧
      (m.frame padding).length = BUFFER_SIZE + remainingBytesWithPadding m.size ∧
      s'.bytesSent = s.bytesSent + (m.frame padding).length := by
  obtain ⟨padding, hframe, hlength⟩ := overwrite_frame hframed fresh rfl
  have haligned : 16 ∣ (m.frame padding).length := by
    rw [hlength]
    exact Nat.dvd_mul_right _ _
  let sent (done : List UInt8) (s' : Outgoing κ) : Prop := Written C s₀ (text ++ done) s' ∧ s'.bytesSent = s.bytesSent
  have hnext : ∀ {done xs s'}, sent done s' → xs ≠ [] → 16 ∣ xs.length → ∃ k s'', writesome C xs s' = .ok k s'' ∧
      0 < k ∧ k ≤ xs.length ∧ 16 ∣ k ∧ sent (done ++ xs.take k) s'' := by
    intro done xs s' hdone hne hxs
    obtain ⟨k, s'', hsome, hk, hle, hdvd, hwritten, hsame⟩ := writesome_spec hdone.1 hne hxs
    rw [List.append_assoc] at hwritten
    exact ⟨k, s'', hsome, hk, hle, hdvd, hwritten, hsame.trans hdone.2⟩
  have hnothing : sent [] s := ⟨by rwa [List.append_nil], rfl⟩
  obtain ⟨s₁, hwrite, hwritten, hsent⟩ := O.write_spec hnext hnothing haligned
  refine ⟨{ s₁ with bytesSent := s₁.bytesSent + (m.frame padding).length }, padding, ?_,
    ⟨hwritten.aligned, hwritten.wire, hwritten.sendAes, hwritten.pieces⟩, ?_, ?_⟩
  · unfold sendMessage
    rw [hframe, bind_apply, hwrite, hlength]
    rfl
  · rw [hlength, padding_agrees hframed.size_le]
  · rw [hsent]

/-- **Messages are sent** as their texts, one after the other. -/
theorem forM_sendMessage (sends : List (Message × (ℕ → UInt8))) (hframed : ∀ p ∈ sends, p.1.Framed)
    (h : Written C s₀ text s) : ∃ s' frames, (sends.forM fun p => sendMessage C O p.1 p.2) s = .ok () s' ∧
      Written C s₀ (text ++ frames) s' ∧ Frames (sends.map Prod.fst) frames ∧
      s'.bytesSent = s.bytesSent + frames.length := by
  induction sends generalizing text s with
  | nil => exact ⟨s, [], rfl, by rwa [List.append_nil], .nil, rfl⟩
  | cons p sends ih =>
    have hfirst := hframed p List.mem_cons_self
    obtain ⟨s₁, padding, hsend, hwritten, hlength, hsent⟩ := sendMessage_spec (O := O) hfirst p.2 h
    obtain ⟨s', frames, hrun, hwritten', hframes, hsent'⟩ := ih (fun q hq => hframed q (.tail _ hq)) hwritten
    refine ⟨s', p.1.frame padding ++ frames, ?_, ?_, .cons hfirst hlength hframes, ?_⟩
    · show (sendMessage C O p.1 p.2 >>= fun _ => sends.forM fun p => sendMessage C O p.1 p.2) s = _
      rw [bind_apply, hsend]
      exact hrun
    · rwa [List.append_assoc] at hwritten'
    · rw [hsent', hsent, List.length_append, Nat.add_assoc]

end Sending

/-! ### What is received -/

section Receiving

variable {C : Cipher κ} {I : ReadAll NetFault (Incoming κ) UInt8} {cut : ℕ → ℕ} {delegate : Delegate}
  {s : Incoming κ} {m : Message} {text padding : List UInt8}

/-- What the delegate is given. -/
theorem declaredSize_frame (m : Message) (padding text : List UInt8) :
    declaredSize (m.frame padding ++ text) = m.size := by
  show ofMemory (memory m.size) = m.size
  exact ofMemory_memory m.size

theorem messageOf_frame (hframed : m.Framed) (padding text : List UInt8) :
    messageOf (m.frame padding ++ text) = m := by
  have htype : ofMemory (((m.frame padding ++ text).drop 4).take 4) = m.msgType := ofMemory_memory m.msgType
  have hdata : ((m.frame padding ++ text).drop sizeofMessageHeader).take m.size.toNat = m.data := by
    show (m.data ++ padding ++ text).take m.size.toNat = m.data
    rw [← hframed.length_data, List.append_assoc, List.take_left]
  unfold messageOf
  rw [declaredSize_frame, htype, hdata]

variable (I cut delegate) in
/-- **The texts of some messages** are received, up to the first message that the delegate refuses. -/
theorem ends_frames {messages : List Message} (hframes : Frames messages text) (hplain : s.plain C = text)
    (m : Message) :
    (∃ s', Ends (readRound C I cut delegate) m s (.error .eof s') ∧ s'.delivered = s.delivered ++ messages ∧
      AtEnd s' ∧ s'.bytesReceived = s.bytesReceived + text.length) ∨
    ∃ before m' after e s', messages = before ++ m' :: after ∧ delegate (s.delivered ++ before) m' = some e ∧
      Ends (readRound C I cut delegate) m s (.error e s') ∧ s'.delivered = s.delivered ++ before ++ [m'] := by
  induction hframes generalizing s m with
  | nil =>
    obtain ⟨s', hround, hend, hhas⟩ := readRound_short C I cut delegate m (s := s) (by rw [hplain]; decide)
    exact .inl ⟨s', .thrown hround, by rw [hhas.delivered, List.append_nil], hend, hhas.bytesReceived⟩
  | @cons m₁ padding text messages hframed hlength hrest ih =>
    have hsize := declaredSize_frame m₁ padding text
    obtain ⟨s₁, asked, hround, hplain₁, hhas, -⟩ := readRound_message C I cut delegate m (s := s)
      (by rw [hplain, hsize]; exact hframed.size_le)
      (by rw [hplain, hsize, List.length_append, hlength]; exact Nat.le_add_right _ _)
    rw [hplain, hsize, ← hlength, List.drop_left] at hplain₁
    rw [hplain, hsize, ← hlength] at hhas
    rw [hplain, messageOf_frame hframed] at hround
    cases hrefused : delegate s.delivered m₁ with
    | some e =>
      refine .inr ⟨[], m₁, messages, e, { s₁ with delivered := s₁.delivered ++ [m₁] }, rfl, ?_, .thrown ?_, ?_⟩
      · rwa [List.append_nil]
      · rw [hround, bind_apply, onMessage, hhas.delivered, hrefused]
      · rw [List.append_nil, hhas.delivered]
    | none =>
      have hnext : readRound C I cut delegate m s =
          .ok (.inl m₁) { s₁ with delivered := s.delivered ++ [m₁] } := by
        rw [hround, bind_apply, onMessage, hhas.delivered, hrefused]
        rfl
      rcases ih (s := { s₁ with delivered := s.delivered ++ [m₁] }) hplain₁ m₁ with
        ⟨s', hends, hdelivered, hend, hbytes⟩ | ⟨before, m', after, e, s', hmessages, hfault, hends, hdelivered⟩
      · refine .inl ⟨s', .again hnext hends, ?_, hend, ?_⟩
        · rw [hdelivered, List.append_assoc]
          rfl
        · rw [hbytes, List.length_append, ← Nat.add_assoc]
          exact congrArg (· + text.length) hhas.bytesReceived
      · have hbefore : s.delivered ++ [m₁] ++ before = s.delivered ++ m₁ :: before := List.append_assoc _ _ _
        refine .inr ⟨m₁ :: before, m', after, e, s', by rw [hmessages]; rfl, ?_, .again hnext hends, ?_⟩
        · rw [← hbefore]
          exact hfault
        · rw [← hbefore]
          exact hdelivered

/-- What every round keeps, and its last one: whole messages, and multiples of 16 bytes. -/
structure Received (s s' : Incoming κ) : Prop where
  delivered : ∃ messages, s'.delivered = s.delivered ++ messages ∧ ∀ x ∈ messages, x.Framed
  reads : ∃ asked, s'.reads = s.reads ++ asked ∧ ∀ n ∈ asked, 16 ∣ n
  pieces : ∃ ps, s'.pieces = s.pieces ++ ps ∧ ∀ n ∈ ps, 16 ∣ n

theorem Received.refl (s : Incoming κ) : Received s s :=
  ⟨⟨[], (List.append_nil _).symm, fun _ h => absurd h List.not_mem_nil⟩,
    ⟨[], (List.append_nil _).symm, fun _ h => absurd h List.not_mem_nil⟩,
    ⟨[], (List.append_nil _).symm, fun _ h => absurd h List.not_mem_nil⟩⟩

/-- Two lists that grow, with a property of what is added. -/
theorem append_trans {α : Type} {p : α → Prop} {l₁ l₂ l₃ : List α} (h : ∃ l, l₂ = l₁ ++ l ∧ ∀ x ∈ l, p x)
    (h' : ∃ l, l₃ = l₂ ++ l ∧ ∀ x ∈ l, p x) : ∃ l, l₃ = l₁ ++ l ∧ ∀ x ∈ l, p x := by
  obtain ⟨l, rfl, hl⟩ := h
  obtain ⟨l', rfl, hl'⟩ := h'
  exact ⟨l ++ l', List.append_assoc _ _ _, fun x hx => (List.mem_append.mp hx).elim (hl x) (hl' x)⟩

theorem Received.trans {s₁ s₂ s₃ : Incoming κ} (h : Received s₁ s₂) (h' : Received s₂ s₃) : Received s₁ s₃ :=
  ⟨append_trans h.delivered h'.delivered, append_trans h.reads h'.reads, append_trans h.pieces h'.pieces⟩

theorem HasRead.received {asked : List ℕ} {n : ℕ} {s' : Incoming κ} (h : HasRead asked n s s')
    (hasked : ∀ n ∈ asked, 16 ∣ n) : Received s s' :=
  ⟨⟨[], by rw [h.delivered, List.append_nil], fun _ h => absurd h List.not_mem_nil⟩, ⟨asked, h.reads, hasked⟩,
    h.pieces⟩

theorem length_messageOf (h : BUFFER_SIZE + remainingBytesWithPadding (declaredSize text) ≤ text.length)
    (hsize : declaredSize text ≤ MAX_MESSAGE_SIZE) : (messageOf text).Framed := by
  refine ⟨?_, hsize⟩
  have hroom := size_le_room hsize
  show ((text.drop sizeofMessageHeader).take (declaredSize text).toNat).length = (declaredSize text).toNat
  rw [List.length_take_of_le]
  rw [List.length_drop]
  unfold LEFTOVER at hroom
  have hbuffer : sizeofMessageHeader ≤ BUFFER_SIZE := by decide
  omega

/-- **One round**, of any bytes. -/
theorem readRound_received (C : Cipher κ) (I : ReadAll NetFault (Incoming κ) UInt8) (cut : ℕ → ℕ)
    (delegate : Delegate) (m : Message) (s : Incoming κ) :
    (∃ e s', readRound C I cut delegate m s = .error e s' ∧ Received s s') ∨
    ∃ m' s', readRound C I cut delegate m s = .ok (.inl m') s' ∧ Received s s' ∧
      (s'.plain C).length < (s.plain C).length := by
  have hbuffer : ∀ n ∈ [BUFFER_SIZE], 16 ∣ n := by decide
  by_cases hfirst : (s.plain C).length < BUFFER_SIZE
  · obtain ⟨s', hround, -, hhas⟩ := readRound_short C I cut delegate m hfirst
    exact .inl ⟨_, s', hround, hhas.received hbuffer⟩
  replace hfirst := Nat.not_lt.mp hfirst
  by_cases hsize : declaredSize (s.plain C) ≤ MAX_MESSAGE_SIZE
  · by_cases hrest : (s.plain C).length < BUFFER_SIZE + remainingBytesWithPadding (declaredSize (s.plain C))
    · obtain ⟨s', asked, hround, -, hhas, hasked⟩ := readRound_cut C I cut delegate m hfirst hsize hrest
      exact .inl ⟨_, s', hround, hhas.received hasked⟩
    · replace hrest := Nat.not_lt.mp hrest
      obtain ⟨s₁, asked, hround, hplain, hhas, hasked⟩ := readRound_message C I cut delegate m hsize hrest
      have hdelivered : Received s { s₁ with delivered := s₁.delivered ++ [messageOf (s.plain C)] } := by
        refine (hhas.received hasked).trans ⟨⟨_, rfl, fun x hx => ?_⟩, (Received.refl s₁).reads,
          (Received.refl s₁).pieces⟩
        rw [List.mem_singleton.mp hx]
        exact length_messageOf hrest hsize
      rw [hround, bind_apply, onMessage]
      cases delegate s₁.delivered (messageOf (s.plain C)) with
      | some e => exact .inl ⟨e, _, rfl, hdelivered⟩
      | none =>
        refine .inr ⟨_, _, rfl, hdelivered, ?_⟩
        have hpos : 0 < BUFFER_SIZE := by decide
        show (s₁.plain C).length < _
        rw [hplain, List.length_drop]
        omega
  · obtain ⟨s', hround, -, hhas⟩ := readRound_tooLarge C I cut delegate m hfirst hsize
    exact .inl ⟨_, s', hround, hhas.received hbuffer⟩

/-- **Any run of the loop** comes to its end, and has received whole messages. -/
theorem ends_received (C : Cipher κ) (I : ReadAll NetFault (Incoming κ) UInt8) (cut : ℕ → ℕ)
    (delegate : Delegate) (m : Message) (s : Incoming κ) :
    (∃ e s', Ends (readRound C I cut delegate) m s (.error e s')) ∧
    ∀ e s', Ends (readRound C I cut delegate) m s (.error e s') → Received s s' := by
  constructor
  · obtain ⟨r, hr⟩ : ∃ r, Ends (readRound C I cut delegate) m s r := ends_of_rank
      (fun _ s => (s.plain C).length) (fun {m s m' s'} hround => by
        rcases readRound_received C I cut delegate m s with ⟨e, s₁, h, -⟩ | ⟨m₁, s₁, h, -, hless⟩
        · rw [h] at hround
          cases hround
        · rw [h] at hround
          cases hround
          exact hless) m s
    cases r with
    | ok a s' => exact a.elim
    | error e s' => exact ⟨e, s', hr⟩
  · intro e s' h
    refine h.thrown_of (I := fun _ s₁ => Received s s₁) (J := fun _ s₁ => Received s s₁) ?_ ?_ (Received.refl s)
    · intro m s₁ m' s₂ hs₁ hround
      rcases readRound_received C I cut delegate m s₁ with ⟨e, s₃, h, -⟩ | ⟨m₁, s₃, h, hreceived, -⟩
      · rw [h] at hround
        cases hround
      · rw [h] at hround
        cases hround
        exact hs₁.trans hreceived
    · intro m s₁ e s₂ hs₁ hround
      rcases readRound_received C I cut delegate m s₁ with ⟨e, s₃, h, hreceived⟩ | ⟨m₁, s₃, h, -, -⟩
      · rw [h] at hround
        cases hround
        exact hs₁.trans hreceived
      · rw [h] at hround
        cases hround

end Receiving

/-! ### Both sides -/

/-- The socket has the text of the messages, after it was sent through the cipher. -/
theorem plain_of_written {C : Cipher κ} {e d : κ} (hpaired : C.Paired e d) {text : List UInt8} {out : Outgoing κ}
    (h : Written C { sendAes := e } text out) : Incoming.plain C { wire := out.wire, recvAes := d } = text := by
  have hwire : out.wire = (C.encode e text).1 := h.wire
  have hlength : 16 ∣ out.wire.length := by
    rw [hwire, C.length_encode e h.aligned]
    exact h.aligned
  have htake : out.wire.take (16 * (out.wire.length / 16)) = out.wire := by
    rw [Nat.mul_div_cancel' hlength, List.take_length]
  unfold Incoming.plain
  rw [htake, hwire, C.decode_encode hpaired h.aligned]

/-- **Framing.** Messages that are sent are received: all of them, to the last byte, or up to the first that the delegate
refuses. Of any bytes whole messages are received, and a header that declares too much ends the loop without a further
read. Everything is read and written in multiples of 16 bytes. -/
theorem framing (C : Cipher κ) (O : WriteAll NetFault (Outgoing κ) UInt8)
    (I : ReadAll NetFault (Incoming κ) UInt8) (cut : ℕ → ℕ) (delegate : Delegate) (m : Message) :
    (∀ (e d : κ) (sends : List (Message × (ℕ → UInt8))), C.Paired e d → (∀ p ∈ sends, p.1.Framed) →
      ∃ out, (sends.forM fun p => sendMessage C O p.1 p.2) { sendAes := e } = .ok () out ∧
        (∀ n ∈ out.pieces, 16 ∣ n) ∧ out.bytesSent = out.wire.length ∧
        ((∃ s', ReadLoop C I cut delegate m { wire := out.wire, recvAes := d } (.ok () s') ∧
            s'.delivered = sends.map Prod.fst ∧ s'.wire = [] ∧ s'.bytesReceived = out.bytesSent) ∨
          ∃ before m' after e s', sends.map Prod.fst = before ++ m' :: after ∧ delegate before m' = some e ∧
            Ends (readRound C I cut delegate) m { wire := out.wire, recvAes := d } (.error e s') ∧
            s'.delivered = before ++ [m'])) ∧
    (∀ s : Incoming κ, (∃ r, ReadLoop C I cut delegate m s r) ∧
      ∀ e s', Ends (readRound C I cut delegate) m s (.error e s') → Received s s') ∧
    ∀ s : Incoming κ, BUFFER_SIZE ≤ (s.plain C).length → ¬ declaredSize (s.plain C) ≤ MAX_MESSAGE_SIZE →
      ∃ s', Ends (readRound C I cut delegate) m s (.error .assertion s') ∧ s'.reads = s.reads ++ [BUFFER_SIZE] ∧
        s'.delivered = s.delivered := by
  refine ⟨fun e d sends hpaired hframed => ?_, fun s => ?_, fun s henough hsize => ?_⟩
  · obtain ⟨out, text, hrun, hwritten, hframes, hsent⟩ :=
      forM_sendMessage (O := O) sends hframed (Written.nil C { sendAes := e })
    rw [List.nil_append] at hwritten
    obtain ⟨ps, hps, hdvd⟩ := hwritten.pieces
    have hlength : out.bytesSent = out.wire.length := by
      rw [hsent, hwritten.wire]
      show 0 + text.length = ((C.encode e text).1).length
      rw [C.length_encode e hwritten.aligned, Nat.zero_add]
    refine ⟨out, hrun, fun n hn => hdvd n (by rw [hps] at hn; exact hn), hlength, ?_⟩
    rcases ends_frames I cut delegate hframes (plain_of_written hpaired hwritten) m with
      ⟨s', hends, hdelivered, hend, hbytes⟩ | hrefused
    · refine .inl ⟨{ s' with connectionClosed := true }, ⟨.eof, s', hends, rfl⟩, hdelivered, hend, ?_⟩
      rw [hsent]
      exact hbytes
    · exact .inr hrefused
  · obtain ⟨⟨e, s', hends⟩, hreceived⟩ := ends_received C I cut delegate m s
    exact ⟨⟨_, e, s', hends, rfl⟩, hreceived⟩
  · obtain ⟨s', hround, -, hhas⟩ := readRound_tooLarge C I cut delegate m henough hsize
    exact ⟨s', .thrown hround, hhas.reads, hhas.delivered⟩

/-- A cipher with one byte as its key. -/
def Cipher.xor : Cipher UInt8 where
  encode k a := (a.map (k ^^^ ·), k)
  decode k a := (a.map (k ^^^ ·), k)
  Paired e d := e = d
  encode_nil _ := rfl
  length_encode _ _ _ := List.length_map _
  length_decode _ _ _ := List.length_map _
  encode_append _ _ _ _ := Prod.ext List.map_append rfl
  decode_append _ _ _ _ := Prod.ext List.map_append rfl
  decode_encode {e d a} h _ := by
    subst h
    have htwice : ∀ x ∈ a, ((e ^^^ ·) ∘ (e ^^^ ·)) x = id x := fun x _ => by
      show e ^^^ (e ^^^ x) = x
      rw [← UInt8.xor_assoc, UInt8.xor_self, UInt8.zero_xor]
    show (a.map (e ^^^ ·)).map (e ^^^ ·) = a
    rw [List.map_map, List.map_congr_left htwice, List.map_id]

/-- Two messages, one that has the first 16 bytes to itself and one that does not, in pieces of 5 bytes. -/
theorem framing_twoMessages : ∃ out,
    ([(⟨8, 5001, List.replicate 8 1⟩, fun _ => 0), (⟨9, 5002, List.replicate 9 2⟩, fun _ => 0)].forM fun p =>
      sendMessage Cipher.xor .loop p.1 p.2) { sendAes := 7 } = .ok () out ∧
    (∀ n ∈ out.pieces, 16 ∣ n) ∧ out.bytesSent = out.wire.length ∧
    ((∃ s', ReadLoop Cipher.xor .loop (fun _ => 5) (fun _ _ => none) ⟨0, 0, []⟩ { wire := out.wire, recvAes := 7 }
        (.ok () s') ∧ s'.delivered = [⟨8, 5001, List.replicate 8 1⟩, ⟨9, 5002, List.replicate 9 2⟩] ∧
        s'.wire = [] ∧ s'.bytesReceived = out.bytesSent) ∨
      ∃ before m' after e s', [⟨8, 5001, List.replicate 8 1⟩, ⟨9, 5002, List.replicate 9 2⟩] =
        before ++ m' :: after ∧ (fun _ _ => none : Delegate) before m' = some e ∧
        Ends (readRound Cipher.xor .loop (fun _ => 5) (fun _ _ => none)) ⟨0, 0, []⟩
          { wire := out.wire, recvAes := 7 } (.error e s') ∧ s'.delivered = before ++ [m']) :=
  (framing Cipher.xor .loop .loop (fun _ => 5) (fun _ _ => none) ⟨0, 0, []⟩).1 7 7 _ rfl (by
    intro p hp
    rcases List.mem_cons.mp hp with rfl | hp
    · exact ⟨by decide, by decide⟩
    · rw [List.mem_singleton.mp hp]
      exact ⟨by decide, by decide⟩)

end FinChain.Net
