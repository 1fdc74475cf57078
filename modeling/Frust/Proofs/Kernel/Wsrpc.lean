import Frust.Kernel.Wsrpc

/-!
# `Frust.Proofs.Kernel.Wsrpc`: what a reader is told of the frames, and a call of its reply

A `Frame` is a frame of the protocol, from either side, and `Frame.bytes` its bytes: the header with
one of three lengths, the mask, and the masked payload. What `writeFrame` sends are the bytes of a
frame (`frameBytes_eq`), and `readOne` reads the bytes of every frame back (`readOne_bytes`).

`receive` says what should become of frames: a ping is answered, a message is handed on, and a close
or a part of a message ends the reading. `Framed` compares a run of the reader thread with it. The
reader never looks at FIN, so the two differ exactly where a message begins that is in parts:
`framed_iff`.

Every message that was read is in one place, and every channel was opened for one id (`Routed`). Each
request keeps that (`Routed.step`), so calls side by side get their own replies: `replies_routed`.
-/

set_option autoImplicit false

namespace Frust.Kernel.Wsrpc

open Frust.Lib Frust.Lib.Pool

/-! ### Frames -/

/-- A slice: it has `isize::MAX` bytes at most. -/
structure Payload where
  bytes : List UInt8
  fits : bytes.length < 2 ^ 63

/-- A frame. A control frame is never in parts. -/
structure Frame where
  fin : Bool
  opcode : Fin 16
  mask : Option Mask
  payload : Payload
  whole : 8 ≤ opcode.val → fin = true

namespace Frame

/-- The byte of an opcode. -/
def code (opcode : Fin 16) : UInt8 := UInt8.ofNat opcode

/-- The second byte, and what follows it of the length. -/
def lengthBytes (bit : UInt8) (n : Nat) : List UInt8 :=
  if n < 126 then [bit ||| UInt8.ofNat n]
  else if n ≤ 65535 then (bit ||| 126) :: Bytes.toBe 2 n
  else (bit ||| 127) :: Bytes.toBe 8 n

/-- The bytes of a frame. -/
def bytes (f : Frame) : List UInt8 :=
  ((if f.fin then 0x80 else 0) ||| code f.opcode) ::
    match f.mask with
    | some mask => lengthBytes 0x80 f.payload.bytes.length ++ List.ofFn mask
        ++ Bytes.xorKey mask.key f.payload.bytes
    | none => lengthBytes 0 f.payload.bytes.length ++ f.payload.bytes

/-- A close, or a part of a message that goes on. -/
def ends (f : Frame) : Bool := f.opcode = 0x8 || f.opcode = 0x0

/-- A message as the reader hands it on. -/
def message (f : Frame) : UInt8 × List UInt8 := (code f.opcode, f.payload.bytes)

end Frame

/-- What is written is a frame that is whole, and masked. -/
theorem frameBytes_eq (opcode : Fin 16) (payload : Payload) (mask : Mask) :
    frameBytes (Frame.code opcode) payload.bytes mask
      = (Frame.mk true opcode (some mask) payload fun _ => rfl).bytes := rfl

/-! ### One frame -/

theorem readExact_append {n : Nat} {l : List UInt8} (h : l.length = n) (rest : List UInt8) :
    readExact n (l ++ rest) = .ok (l, rest) := by
  rw [readExact, Bytes.takeExact_append h]

/-- A short length and the bit beside it share a byte. -/
theorem or_and_short {bit : UInt8} (hbit : bit = 0 ∨ bit = 0x80) {n : Nat} (hn : n < 126) :
    ((bit ||| UInt8.ofNat n) &&& 0x7F).toNat = n ∧
      ((bit ||| UInt8.ofNat n) &&& 0x80 != 0) = decide (bit = 0x80) := by
  have hbits : ∀ n < 126, ∀ bit ∈ [0, 0x80],
      (bit ||| n) &&& 0x7F = n ∧ (bit ||| n) &&& 0x80 = bit := by decide +kernel
  have hmem : bit.toNat ∈ [0, 0x80] := by rcases hbit with rfl | rfl <;> decide
  obtain ⟨hlow, hhigh⟩ := hbits n hn bit.toNat hmem
  have hnat : (UInt8.ofNat n).toNat = n := UInt8.toNat_ofNat_of_lt (Nat.lt_trans hn (by decide))
  have hself : (bit ||| UInt8.ofNat n) &&& 0x80 = bit := by
    rw [← UInt8.toNat_inj, UInt8.toNat_and, UInt8.toNat_or, hnat]
    exact hhigh
  constructor
  · rw [UInt8.toNat_and, UInt8.toNat_or, hnat]
    exact hlow
  · rw [hself]
    rcases hbit with rfl | rfl <;> decide

/-- A length is read back, and the bit beside it. -/
theorem readLength_bytes {bit : UInt8} (hbit : bit = 0 ∨ bit = 0x80) {n : Nat} (hn : n < 2 ^ 63)
    (rest : List UInt8) : ∃ b ext, Frame.lengthBytes bit n = b :: ext ∧
      readLength b (ext ++ rest) = .ok (n, rest) ∧ (b &&& 0x80 != 0) = decide (bit = 0x80) := by
  have hlong : ∀ bit ∈ [(0 : UInt8), 0x80], ((bit ||| 126) &&& 0x7F).toNat = 126 ∧
      ((bit ||| 127) &&& 0x7F).toNat = 127 ∧ ((bit ||| 126) &&& 0x80 != 0) = decide (bit = 0x80) ∧
        ((bit ||| 127) &&& 0x80 != 0) = decide (bit = 0x80) := by decide +kernel
  have hmem : bit ∈ [(0 : UInt8), 0x80] := by simpa using hbit
  obtain ⟨h126, h127, hbit126, hbit127⟩ := hlong bit hmem
  unfold Frame.lengthBytes
  split
  · rename_i hlt
    obtain ⟨hlen, hmasked⟩ := or_and_short hbit hlt
    refine ⟨_, [], rfl, ?_, hmasked⟩
    unfold readLength
    rw [hlen]
    dsimp only
    rw [if_neg (by omega), if_neg (by omega)]
    rfl
  · split
    · rename_i hle
      refine ⟨_, _, rfl, ?_, hbit126⟩
      unfold readLength
      rw [h126]
      dsimp only
      rw [if_pos rfl, readExact_append (Bytes.length_toBe 2 n)]
      show Except.ok (Bytes.ofBe (Bytes.toBe 2 n), rest) = _
      rw [Bytes.ofBe_toBe (by omega)]
    · refine ⟨_, _, rfl, ?_, hbit127⟩
      unfold readLength
      rw [h127]
      dsimp only
      rw [if_neg (by decide), if_pos rfl, readExact_append (Bytes.length_toBe 8 n)]
      show Except.ok (Bytes.ofBe (Bytes.toBe 8 n), rest) = _
      rw [Bytes.ofBe_toBe (by omega)]

theorem readMask_ofFn (mask : Mask) (rest : List UInt8) :
    readMask true (List.ofFn mask ++ rest) = .ok (mask, rest) := by
  rw [readMask, if_pos rfl, readExact_append (List.length_ofFn (f := mask))]
  refine congrArg (fun m => Except.ok (m, rest)) (funext fun i => ?_)
  rw [List.getD_eq_getElem?_getD, List.getElem?_eq_getElem (by simp), List.getElem_ofFn]
  rfl

/-- A frame is its header, its mask and its payload. -/
theorem readOne_of {b₀ b₁ : UInt8} {rest rest₁ rest₂ rest₃ payload : List UInt8} {len : Nat}
    {mask : Mask} (hlength : readLength b₁ rest = .ok (len, rest₁))
    (hmask : readMask (b₁ &&& 0x80 != 0) rest₁ = .ok (mask, rest₂))
    (hpayload : readExact len rest₂ = .ok (payload, rest₃)) :
    readOne (b₀ :: b₁ :: rest) = .ok ((b₀ &&& 0x0F,
      if b₁ &&& 0x80 != 0 then Bytes.xorKey mask.key payload else payload), rest₃) := by
  have hhead : readExact 2 (b₀ :: b₁ :: rest) = .ok ([b₀, b₁], rest) :=
    readExact_append (l := [b₀, b₁]) rfl rest
  have hsecond : [b₀, b₁].getD 1 0 = b₁ := rfl
  simp only [readOne, bind, Except.bind, hhead, hsecond, hlength, hmask, hpayload]
  rfl

/-- The bytes of a frame are read as its opcode and its payload, and no byte more. -/
theorem readOne_bytes (f : Frame) (rest : List UInt8) :
    readOne (f.bytes ++ rest) = .ok (f.message, rest) := by
  have hopcode : ∀ (fin : Bool) (opcode : Fin 16),
      ((if fin then (0x80 : UInt8) else 0) ||| Frame.code opcode) &&& 0x0F = Frame.code opcode := by
    decide
  have hpayload : f.payload.bytes.length < 2 ^ 63 := f.payload.fits
  unfold Frame.bytes Frame.message
  cases f.mask with
  | none =>
      obtain ⟨b, ext, hbytes, hlength, hbit⟩ := readLength_bytes (.inl rfl) hpayload
        (f.payload.bytes ++ rest)
      have hmasked : (b &&& 0x80 != 0) = false := hbit
      dsimp only
      rw [hbytes, List.cons_append, List.cons_append, List.cons_append, List.append_assoc,
        readOne_of hlength (by rw [hmasked]; rfl) (readExact_append rfl rest), hmasked, hopcode]
      rfl
  | some mask =>
      have hlen : (Bytes.xorKey mask.key f.payload.bytes).length = f.payload.bytes.length :=
        Bytes.length_xorKey _ _
      obtain ⟨b, ext, hbytes, hlength, hbit⟩ := readLength_bytes (.inr rfl) hpayload
        (List.ofFn mask ++ (Bytes.xorKey mask.key f.payload.bytes ++ rest))
      have hmasked : (b &&& 0x80 != 0) = true := hbit
      dsimp only
      rw [hbytes, List.cons_append, List.cons_append, List.cons_append, List.cons_append,
        List.append_assoc, List.append_assoc,
        readOne_of hlength (by rw [hmasked, readMask_ofFn]) (readExact_append hlen rest), hmasked,
        if_pos rfl, hopcode, Bytes.xorKey_xorKey]

/-! ### What should become of frames -/

/-- What is handed on of frames, which pings are answered, and whether the reading is over. -/
structure Reception where
  messages : List (UInt8 × List UInt8)
  pongs : List (List UInt8)
  ended : Bool

/-- What should become of frames, where writes go through or do not. -/
def receive (works : Bool) : List Frame → Reception
  | [] => ⟨[], [], false⟩
  | f :: fs =>
      if f.opcode = 0x9 then
        if works then { receive works fs with pongs := f.payload.bytes :: (receive works fs).pongs }
        else ⟨[], [], true⟩
      else if f.ends || !f.fin then ⟨[], [], true⟩
      else { receive works fs with messages := f.message :: (receive works fs).messages }

/-- The bytes of the pongs, each under the next mask. -/
def pongBytes (entropy : Nat → Mask) : Nat → List (List UInt8) → List UInt8
  | _, [] => []
  | seq, p :: ps => frameBytes 0xA p (entropy seq) ++ pongBytes entropy ((seq + 1) % 2 ^ 64) ps

/-- The counter after as many writes. -/
def seqAfter (seq : Nat) : Nat → Nat
  | 0 => seq
  | n + 1 => seqAfter ((seq + 1) % 2 ^ 64) n

/-- The stream when the frames are read and the pings answered. -/
def Stream.after (entropy : Nat → Mask) (s : Stream) (pongs : List (List UInt8))
    (rest : List UInt8) : Stream where
  input := rest
  output := s.output ++ pongBytes entropy s.seq pongs
  seq := seqAfter s.seq pongs.length
  broken := s.broken

/-- A reading that was handed messages before. -/
def Reading.behind (messages : List (UInt8 × List UInt8)) (r : Reading) : Reading :=
  { r with messages := messages ++ r.messages }

/-- A run of the reader does what should become of frames: what is to be handed on is handed on in
order, the pings are answered, and the reading is over, or goes on with the bytes behind. -/
structure ReadsAs (entropy : Nat → Mask) (s : Stream) (rest : List UInt8) (r : Reception) :
    Prop where
  ended : r.ended = true → (readAll entropy s).messages = r.messages ∧
    (readAll entropy s).stream.output = s.output ++ pongBytes entropy s.seq r.pongs
  more : r.ended = false →
    readAll entropy s = (readAll entropy (s.after entropy r.pongs rest)).behind r.messages

/-- The bytes of the frames are read as they should be, on every stream and whatever comes after. -/
def Framed (fs : List Frame) : Prop :=
  ∀ (entropy : Nat → Mask) (s : Stream) (rest : List UInt8),
    s.input = fs.flatMap Frame.bytes ++ rest →
      ReadsAs entropy s rest (receive s.broken.isNone fs)

/-! ### The runs of the reader -/

section

variable {entropy : Nat → Mask} {s : Stream} {rest : List UInt8}

theorem readFrame_of_bytes {f : Frame} (h : s.input = f.bytes ++ rest) :
    readFrame entropy s =
      if f.opcode = 0x9 then
        match writeFrame 0xA f.payload.bytes (entropy s.seq)
            { s with input := rest, seq := (s.seq + 1) % 2 ^ 64 } with
        | .error e => (.error e, { s with input := rest, seq := (s.seq + 1) % 2 ^ 64 })
        | .ok s'' => readFrame entropy s''
      else if f.opcode = 0x8 then (.error (.db "ws closed by server"), { s with input := rest })
      else if f.opcode = 0x0 then
        (.error (.db "ws fragmentation unsupported"), { s with input := rest })
      else (.ok f.message, { s with input := rest }) := by
  have hcode : ∀ opcode k : Fin 16, Frame.code opcode = Frame.code k ↔ opcode = k := by decide
  have hone := readOne_bytes f rest
  rw [← h] at hone
  rw [readFrame]
  split
  · rename_i e hread
    rw [hread] at hone
    cases hone
  · rename_i opcode payload rest' hread
    rw [hread] at hone
    cases hone
    have h9 : Frame.code f.opcode = 9 ↔ f.opcode = 9 := hcode f.opcode 9
    have h8 : Frame.code f.opcode = 8 ↔ f.opcode = 8 := hcode f.opcode 8
    have h0 : Frame.code f.opcode = 0 ↔ f.opcode = 0 := hcode f.opcode 0
    simp only [h9, h8, h0]
    by_cases hping : f.opcode = 9
    · rw [if_pos hping, if_pos hping]
      split <;> rename_i hwrite <;> rw [hwrite]
    · rw [if_neg hping, if_neg hping]
      rfl

/-- The reader goes on where the frame is read, or is over. -/
theorem readAll_eq (entropy : Nat → Mask) (s : Stream) :
    readAll entropy s =
      match readFrame entropy s with
      | (.error e, s') => ⟨[], e, s'⟩
      | (.ok frame, s') => (readAll entropy s').behind [frame] := by
  rw [readAll]
  split
  · rename_i hread
    rw [hread]
  · rename_i hread
    rw [hread]
    rfl

theorem readAll_congr {s s' : Stream} (h : readFrame entropy s = readFrame entropy s') :
    readAll entropy s = readAll entropy s' := by
  rw [readAll_eq, h, ← readAll_eq]

/-- A ping is answered, where writes go through. -/
theorem readAll_ping {f : Frame} (h : s.input = f.bytes ++ rest) (hping : f.opcode = 0x9)
    (hworks : s.broken = none) :
    readAll entropy s = readAll entropy (s.after entropy [f.payload.bytes] rest) := by
  refine readAll_congr ?_
  rw [readFrame_of_bytes h, if_pos hping, writeFrame, hworks]
  simp [Stream.after, pongBytes, seqAfter, hworks]

/-- A message is handed on, in parts or not. -/
theorem readAll_message {f : Frame} (h : s.input = f.bytes ++ rest) (hping : f.opcode ≠ 0x9)
    (hends : f.ends = false) :
    readAll entropy s = (readAll entropy (s.after entropy [] rest)).behind [f.message] := by
  simp only [Frame.ends, Bool.or_eq_false_iff, decide_eq_false_iff_not] at hends
  have hafter : s.after entropy [] rest = { s with input := rest } := by
    simp [Stream.after, pongBytes, seqAfter]
  rw [readAll_eq, readFrame_of_bytes h, if_neg hping, if_neg hends.1, if_neg hends.2, hafter]

/-- A close, a part that goes on, and a ping that cannot be answered are the end. -/
theorem readAll_ended {f : Frame} (h : s.input = f.bytes ++ rest)
    (hended : f.ends = true ∨ f.opcode = 0x9 ∧ s.broken ≠ none) :
    (readAll entropy s).messages = [] ∧ (readAll entropy s).stream.output = s.output := by
  rw [readAll_eq, readFrame_of_bytes h]
  rcases hended with hends | ⟨hping, hbroken⟩
  · simp only [Frame.ends, Bool.or_eq_true, decide_eq_true_eq] at hends
    have hping : f.opcode ≠ 9 := by
      rintro heq
      rw [heq] at hends
      exact absurd hends (by decide)
    rw [if_neg hping]
    by_cases hclose : f.opcode = 8
    · rw [if_pos hclose]
      exact ⟨rfl, rfl⟩
    · rw [if_neg hclose, if_pos (hends.resolve_left hclose)]
      exact ⟨rfl, rfl⟩
  · obtain ⟨e, he⟩ := Option.ne_none_iff_exists'.mp hbroken
    rw [if_pos hping, writeFrame, he]
    exact ⟨rfl, rfl⟩

end

/-! ### Framing -/

section

variable {entropy : Nat → Mask} {s : Stream} {rest : List UInt8} {r : Reception}

theorem after_nil (entropy : Nat → Mask) (s : Stream) (rest : List UInt8) :
    s.after entropy [] rest = { s with input := rest } := by
  simp [Stream.after, pongBytes, seqAfter]

theorem after_after (entropy : Nat → Mask) (s : Stream) (p : List UInt8) (ps : List (List UInt8))
    (rest₁ rest : List UInt8) :
    (s.after entropy [p] rest₁).after entropy ps rest = s.after entropy (p :: ps) rest := by
  simp [Stream.after, pongBytes, seqAfter]

theorem not_ends_of_ping {f : Frame} (h : f.opcode = 0x9) : f.ends = false := by
  unfold Frame.ends
  rw [h]
  rfl

/-- A ping goes before what should become of the rest. -/
theorem ReadsAs.ping {f : Frame} {rest₁ : List UInt8} (h : s.input = f.bytes ++ rest₁)
    (hping : f.opcode = 0x9) (hworks : s.broken = none)
    (hrest : ReadsAs entropy (s.after entropy [f.payload.bytes] rest₁) rest r) :
    ReadsAs entropy s rest { r with pongs := f.payload.bytes :: r.pongs } where
  ended hended := by
    obtain ⟨hmessages, houtput⟩ := hrest.ended hended
    rw [readAll_ping h hping hworks]
    refine ⟨hmessages, houtput.trans ?_⟩
    simp [Stream.after, pongBytes, seqAfter]
  more hmore := by
    rw [readAll_ping h hping hworks, hrest.more hmore, after_after]

theorem ReadsAs.message {f : Frame} {rest₁ : List UInt8} (h : s.input = f.bytes ++ rest₁)
    (hping : f.opcode ≠ 0x9) (hends : f.ends = false)
    (hrest : ReadsAs entropy (s.after entropy [] rest₁) rest r) :
    ReadsAs entropy s rest { r with messages := f.message :: r.messages } where
  ended hended := by
    obtain ⟨hmessages, houtput⟩ := hrest.ended hended
    rw [readAll_message h hping hends]
    refine ⟨congrArg (f.message :: ·) hmessages, houtput.trans ?_⟩
    rw [after_nil]
  more hmore := by
    rw [readAll_message h hping hends, hrest.more hmore, after_nil]
    rfl

/-- Frames that are whole up to the end of the reading are read as they should be. -/
theorem framed_of_fin {fs : List Frame}
    (h : ∀ f ∈ fs.takeWhile (!·.ends), f.fin = true) : Framed fs := by
  induction fs with
  | nil =>
      intro entropy s rest hinput
      refine ⟨fun hended => (by cases hended), fun _ => ?_⟩
      show readAll entropy s = (readAll entropy (s.after entropy [] rest)).behind []
      rw [after_nil, show rest = s.input from hinput.symm]
      rfl
  | cons f fs ih =>
      intro entropy s rest hinput
      rw [List.flatMap_cons, List.append_assoc] at hinput
      cases hends : f.ends with
      | true =>
          -- the frame ends the reading
          have hping : f.opcode ≠ 9 := fun heq => by
            rw [not_ends_of_ping heq] at hends
            cases hends
          rw [receive, if_neg hping, hends, Bool.true_or, if_pos rfl]
          refine ⟨fun _ => ?_, fun hmore => (by cases hmore)⟩
          simpa [pongBytes] using readAll_ended hinput (.inl hends)
      | false =>
          have htake : (f :: fs).takeWhile (!·.ends) = f :: fs.takeWhile (!·.ends) := by
            rw [List.takeWhile_cons, if_pos (by rw [hends]; rfl)]
          rw [htake, List.forall_mem_cons] at h
          by_cases hping : f.opcode = 9
          · rw [receive, if_pos hping]
            cases hbroken : s.broken with
            | none =>
                -- the rest is read on the stream behind the pong
                refine ReadsAs.ping hinput hping hbroken ?_
                have hrest := ih h.2 entropy (s.after entropy [f.payload.bytes] _) rest rfl
                rwa [show (s.after entropy _ _).broken = none from hbroken] at hrest
            | some e =>
                refine ⟨fun _ => ?_, fun hmore => (by cases hmore)⟩
                have hended : (readAll entropy s).messages = [] ∧
                    (readAll entropy s).stream.output = s.output :=
                  readAll_ended hinput (.inr ⟨hping, by rw [hbroken]; simp⟩)
                simpa [pongBytes] using hended
          · rw [receive, if_neg hping, hends, h.1]
            exact ReadsAs.message hinput hping hends (ih h.2 entropy (s.after entropy [] _) rest rfl)

end

/-! ### Messages in parts -/

/-- Where a frame is in parts, there is a first one. -/
theorem exists_part {fs : List Frame} (h : ¬ ∀ f ∈ fs.takeWhile (!·.ends), f.fin = true) :
    ∃ pre f post, fs = pre ++ f :: post ∧ (∀ g ∈ pre, g.ends = false ∧ g.fin = true) ∧
      f.ends = false ∧ f.fin = false := by
  induction fs with
  | nil => exact absurd (fun f hf => by cases hf) h
  | cons f fs ih =>
      cases hends : f.ends with
      | true =>
          refine absurd (fun g hg => ?_) h
          rw [List.takeWhile_cons, if_neg (by rw [hends]; simp)] at hg
          cases hg
      | false =>
          rw [List.takeWhile_cons, if_pos (by rw [hends]; rfl), List.forall_mem_cons] at h
          cases hfin : f.fin with
          | false => exact ⟨[], f, fs, rfl, fun g hg => (by cases hg), hends, hfin⟩
          | true =>
              obtain ⟨pre, g, post, rfl, hpre, hg⟩ := ih fun hall => h ⟨hfin, hall⟩
              exact ⟨f :: pre, g, post, rfl, List.forall_mem_cons.mpr ⟨⟨hends, hfin⟩, hpre⟩, hg⟩

/-- Behind frames that are whole, the reading goes on. -/
theorem receive_append {pre : List Frame} (hpre : ∀ g ∈ pre, g.ends = false ∧ g.fin = true)
    (fs : List Frame) :
    (receive true (pre ++ fs)).messages
        = (receive true pre).messages ++ (receive true fs).messages ∧
      (receive true (pre ++ fs)).ended = (receive true fs).ended ∧
      (receive true pre).ended = false := by
  induction pre with
  | nil => exact ⟨rfl, rfl, rfl⟩
  | cons g pre ih =>
      obtain ⟨⟨hends, hfin⟩, hpre⟩ := List.forall_mem_cons.mp hpre
      obtain ⟨hmessages, hended, hpreended⟩ := ih hpre
      rw [List.cons_append, receive, receive]
      by_cases hping : g.opcode = 9
      · rw [if_pos hping, if_pos hping]
        exact ⟨hmessages, hended, hpreended⟩
      · rw [if_neg hping, if_neg hping, hends, hfin]
        exact ⟨congrArg (g.message :: ·) hmessages, hended, hpreended⟩

/-- A message in parts is handed on as if its first part were the message. -/
theorem not_framed_of_part {pre post : List Frame} {f : Frame}
    (hpre : ∀ g ∈ pre, g.ends = false ∧ g.fin = true) (hends : f.ends = false)
    (hfin : f.fin = false) : ¬ Framed (pre ++ f :: post) := by
  intro hframed
  -- a control frame is never in parts
  have hping : f.opcode ≠ 9 := fun heq => by
    rw [f.whole (by rw [heq]; decide)] at hfin
    cases hfin
  obtain ⟨hmessages, hended, hpreended⟩ := receive_append hpre (f :: post)
  have hpart : receive true (f :: post) = ⟨[], [], true⟩ := by
    rw [receive, if_neg hping, hends, hfin]
    rfl
  rw [hpart] at hmessages hended
  let s : Stream := ⟨(pre ++ f :: post).flatMap Frame.bytes, [], 0, none⟩
  have hinput : s.input = pre.flatMap Frame.bytes ++ (f.bytes ++ post.flatMap Frame.bytes) := by
    simp [s]
  -- What is before the part is read as it should be, and then the part is handed on.
  have hwhole : Framed pre := framed_of_fin fun g hg => (hpre g (List.takeWhile_subset _ hg)).2
  have hread := (hwhole (fun _ _ => 0) s _ hinput).more hpreended
  have hat : (s.after (fun _ _ => 0) (receive s.broken.isNone pre).pongs
      (f.bytes ++ post.flatMap Frame.bytes)).input = f.bytes ++ post.flatMap Frame.bytes := rfl
  rw [readAll_message hat hping hends] at hread
  have hgot := ((hframed (fun _ _ => 0) s [] (List.append_nil _).symm).ended hended).1
  have hlengths := congrArg List.length (hgot.symm.trans (congrArg Reading.messages hread))
  have hsame : (receive s.broken.isNone (pre ++ f :: post)).messages
      = (receive true pre).messages := hmessages.trans (List.append_nil _)
  rw [hsame] at hlengths
  have hpre : (receive s.broken.isNone pre).messages = (receive true pre).messages := rfl
  simp only [Reading.behind, List.length_append, List.length_singleton, hpre] at hlengths
  omega

/-- What is written are frames, and frames are read as they should be if and only if none that is
read is in parts. -/
theorem framed_iff (fs : List Frame) :
    (∀ (opcode : Fin 16) (payload : Payload) (mask : Mask),
      frameBytes (Frame.code opcode) payload.bytes mask
        = (Frame.mk true opcode (some mask) payload fun _ => rfl).bytes) ∧
    (Framed fs ↔ ∀ f ∈ fs.takeWhile (!·.ends), f.fin = true) := by
  refine ⟨frameBytes_eq, fun hframed => ?_, framed_of_fin⟩
  by_contra hnot
  obtain ⟨pre, f, post, rfl, hpre, hends, hfin⟩ := exists_part hnot
  exact not_framed_of_part hpre hends hfin hframed

/-- The first part of a message. -/
def firstPart : Frame := ⟨false, 0x1, none, ⟨[0x66], by decide⟩, by decide⟩

/-- The part that ends the message. -/
def lastPart : Frame := ⟨true, 0x0, none, ⟨[0x72], by decide⟩, by decide⟩

/-- A message in two parts is not reported. -/
theorem not_framed_parts : ¬ ∀ fs : List Frame, Framed fs := by
  intro h
  have hnot : ¬ Framed ([] ++ firstPart :: [lastPart]) :=
    not_framed_of_part (fun _ hg => by cases hg) rfl rfl
  exact hnot (h _)

/-! ### Whose reply a call returns -/

/-- What a thread asked and was answered. -/
abbrev Kept := List (Asked RpcRequest RpcAnswer)

/-- The environment of the threads of a connection. -/
abbrev wire : Env RpcRequest RpcAnswer RpcState Kept := keeping RpcState.Answers

/-- The threads of a connection. -/
abbrev RpcPool (ι : Type) := Pool BrokerError RpcRequest RpcAnswer Json RpcState Kept ι

/-- The value of a call is that of a reply by the channel that the call opened. -/
def Ends (method : String) (kept : Kept) (r : Except BrokerError Json) : Prop :=
  ∀ v, r = .ok v → ∃ id channel reply, ⟨.register id, channel⟩ ∈ kept ∧
    ⟨.recv channel, some reply⟩ ∈ kept ∧ replyOf method reply = .ok v

theorem safe_call (method : String) (params : Json) :
    Safe wire (fun _ _ _ => True) (fun _ _ => True) (Ends method) [] (call method params) := by
  refine ⟨trivial, fun _ (n : Nat) _ _ _ => ⟨trivial, fun _ channel _ _ _ => ⟨trivial, ?_⟩⟩⟩
  intro _ sent _ _ _
  cases sent with
  | error e =>
      intro v hv
      cases hv
  | ok _ =>
      refine ⟨trivial, fun _ reply _ _ _ => ?_⟩
      cases reply with
      | none =>
          intro v hv
          cases hv
      | some reply =>
          exact fun v hv => ⟨toString n, channel, reply, by simp [keeping], by simp [keeping], hv⟩

/-- The channels that were sent a message or wait for one, with the id. -/
def held (s : RpcState) : List (Nat × Option String) :=
  s.mail.map (fun e => (e.1, idOf e.2)) ++ s.pending.map fun e => (e.2, some e.1)

/-- A channel has a message at most, with the id that it was opened for, and every message is in one
place. -/
structure Routed (s : RpcState) : Prop where
  fits : ∀ e ∈ held s, e.1 < s.opened.length ∧ s.opened[e.1]? = e.2
  once : ((held s).map Prod.fst).Nodup
  kept : s.received.Perm (s.mail.map Prod.snd ++ s.notified)

section

variable {κ : Type} {s s' : RpcState}

theorem Routed.register (h : Routed s) (id : String) : Routed { s with
    opened := s.opened ++ [id], pending := (id, s.opened.length) :: s.without id } := by
  have hperm : (held { s with pending := (id, s.opened.length) :: s.without id }).Perm
      ((s.opened.length, some id) :: held { s with pending := s.without id }) := List.perm_middle
  have hsub : (held { s with pending := s.without id }).Sublist (held s) :=
    (List.filter_sublist.map _).append_left _
  refine ⟨fun e he => ?_, ?_, h.kept⟩
  · rcases List.mem_cons.mp (hperm.mem_iff.mp he) with rfl | he
    · simp
    · obtain ⟨hlt, hid⟩ := h.fits e (hsub.subset he)
      exact ⟨by simpa using hlt.trans (Nat.lt_succ_self _), (List.getElem?_append_left hlt).trans hid⟩
  · refine ((hperm.map Prod.fst).nodup_iff).mpr
      (List.nodup_cons.mpr ⟨fun hmem => ?_, h.once.sublist (hsub.map Prod.fst)⟩)
    obtain ⟨e, he, heq⟩ := List.mem_map.mp hmem
    exact (h.fits e (hsub.subset he)).1.ne heq

theorem Routed.route (h : Routed s) (msg : Json) : Routed (s.route msg) := by
  unfold RpcState.route
  cases hsender : s.sender msg with
  | none =>
      exact ⟨h.fits, h.once, (h.kept.cons msg).trans List.perm_middle.symm⟩
  | some entry =>
      obtain ⟨id, hid, hbind⟩ := Option.bind_eq_some_iff.mp hsender
      obtain ⟨tx, hlookup, heq⟩ := Option.bind_eq_some_iff.mp hbind
      cases heq
      -- the channel goes from the table to what was sent, with the same id
      have hsub : ((tx, some id) :: (s.without id).map fun e => (e.2, some e.1)).Subperm
          (s.pending.map fun e => (e.2, some e.1)) := by
        obtain ⟨before, after, hpending, hbefore⟩ := List.lookup_eq_some_iff.mp hlookup
        have hkept : before.filter (·.1 ≠ id) = before :=
          List.filter_eq_self.mpr fun e he => by simpa using (bne_iff_ne.mp (hbefore e he)).symm
        have hwithout : s.without id = before ++ after.filter (·.1 ≠ id) := by
          rw [RpcState.without, hpending, List.filter_append, hkept]
          simp
        rw [hwithout, hpending, List.map_append, List.map_append]
        refine List.perm_middle.symm.subperm.trans ?_
        exact (((List.filter_sublist.map _).cons_cons _).append_left _).subperm
      have hheld : (held { s with
          pending := s.without id, mail := (tx, msg) :: s.mail }).Subperm (held s) := by
        rw [held, List.map_cons, hid]
        exact List.perm_middle.symm.subperm.trans ((List.subperm_append_left _).mpr hsub)
      refine ⟨fun e he => h.fits e (hheld.subset he), ?_, h.kept.cons msg⟩
      obtain ⟨l, hperm, hl⟩ := hheld
      exact (hperm.map Prod.fst).nodup_iff.mp (h.once.sublist (hl.map Prod.fst))

/-- What one request does, of any thread. -/
theorem Routed.step (h : Routed s) {q : RpcRequest} {r : RpcAnswer q} (hans : s.Answers q r s') :
    Routed s' := by
  obtain ⟨hallowed, rfl⟩ := hans
  cases q with
  | nextId => exact ⟨h.fits, h.once, h.kept⟩
  | register id => exact hallowed ▸ h.register id
  | write _ | recv _ => exact h
  | turn =>
      rcases r with e | _ | msg
      · exact h
      · exact h
      · exact h.route msg

/-- Calls of a method with its parameters, and the reader, with a number of turns. -/
def start (calls : κ → String × Json) (turns : Nat) : RpcPool (Option κ) where
  shared := {}
  prog := fun
    | some i => call (calls i).1 (calls i).2
    | none => reader turns
  known _ := []

/-- The channels of the calls are their own, and the replies came by them. -/
structure Lined (s : RpcState) (known : Option κ → Kept) : Prop where
  line : ∀ i id channel, ⟨.register id, channel⟩ ∈ known i → s.opened[channel]? = some id
  apart : ∀ i j id id' (channel : Nat), ⟨.register id, channel⟩ ∈ known i →
    ⟨.register id', channel⟩ ∈ known j → i = j
  got : ∀ i channel reply, ⟨.recv channel, some reply⟩ ∈ known i → (channel, reply) ∈ s.mail

theorem opened_stays {opened opened' : List String} (hpre : opened <+: opened')
    {channel : Nat} {id : String} (h : opened[channel]? = some id) :
    opened'[channel]? = some id := by
  obtain ⟨later, rfl⟩ := hpre
  rw [List.getElem?_append_left (List.getElem?_eq_some_iff.mp h).1]
  exact h

theorem stays_of_answers {q : RpcRequest} {r : RpcAnswer q} (h : s.Answers q r s') :
    s.opened <+: s'.opened ∧ s.mail ⊆ s'.mail := by
  obtain ⟨-, rfl⟩ := h
  unfold RpcState.after
  split
  · simp
  · simp
  · unfold RpcState.route
    split <;> simp
  · simp

variable [DecidableEq κ] {calls : κ → String × Json} {turns : Nat} {p p' : RpcPool (Option κ)}
  {t : Turn RpcRequest RpcAnswer (Option κ)} {ts : List (Turn RpcRequest RpcAnswer (Option κ))}

/-- A channel after a step is new, with the next number, or is what it was. -/
theorem line_step (h : Step wire p t p') {i : Option κ} {id : String} {channel : Nat}
    (hmem : ⟨.register id, channel⟩ ∈ p'.known i) : ⟨.register id, channel⟩ ∈ p.known i ∨
      (i = t.thread ∧ channel = p.shared.opened.length ∧
        p'.shared.opened = p.shared.opened ++ [id]) := by
  refine ((mem_kept h).mp hmem).imp_right fun ⟨hi, heq⟩ => ⟨hi, ?_⟩
  have hans := h.answers
  obtain ⟨thread, q, r⟩ := t
  cases heq
  obtain ⟨hchannel, hs⟩ := hans
  exact ⟨hchannel, hs ▸ rfl⟩

theorem Lined.step (hl : Lined p.shared p.known) (h : Step wire p t p') :
    Lined p'.shared p'.known where
  line i id channel hmem := by
    rcases line_step h hmem with hmem | ⟨-, rfl, hopened⟩
    · exact opened_stays (stays_of_answers h.answers).1 (hl.line i id channel hmem)
    · simp [hopened]
  apart i j id id' channel hi hj := by
    -- an old channel is below the new one
    have hlt : ∀ i id, ⟨.register id, channel⟩ ∈ p.known i → channel < p.shared.opened.length :=
      fun i id hmem => (List.getElem?_eq_some_iff.mp (hl.line i id channel hmem)).1
    rcases line_step h hi with hi | ⟨hti, hci, -⟩ <;> rcases line_step h hj with hj | ⟨htj, hcj, -⟩
    · exact hl.apart i j id id' channel hi hj
    · have hold := hlt i id hi
      omega
    · have hold := hlt j id' hj
      omega
    · rw [hti, htj]
  got i channel reply hmem := by
    refine (stays_of_answers h.answers).2 ?_
    rcases (mem_kept h).mp hmem with hmem | ⟨-, heq⟩
    · exact hl.got i channel reply hmem
    · have hans := h.answers
      obtain ⟨thread, q, r⟩ := t
      cases heq
      exact hans.1 reply rfl

/-- What holds in a run. -/
structure Served (calls : κ → String × Json) (p : RpcPool (Option κ)) : Prop where
  routed : Routed p.shared
  lined : Lined p.shared p.known
  safe : ∀ i, Safe wire (fun _ _ _ => True) (fun _ _ => True) (Ends (calls i).1) (p.known (some i))
    (p.prog (some i))

theorem Served.step (hp : Served calls p) (h : Step wire p t p') : Served calls p' :=
  ⟨hp.routed.step h.answers, hp.lined.step h, fun i => Safe.step h trivial (hp.safe i)⟩

/-- Whatever calls run side by side, and whatever the peer sends: the value of a call is made from a
message with the call's own id, no two calls are handed one message and none is handed two, and what
was read was handed to one call or notified. -/
theorem replies_routed (h : Run (Step wire) (start calls turns) ts p) :
    (∀ i v, p.prog (some i) = .done (.ok v) → ∃ id channel reply,
      ⟨.register id, channel⟩ ∈ p.known (some i) ∧ (channel, reply) ∈ p.shared.mail ∧
      idOf reply = some id ∧ replyOf (calls i).1 reply = .ok v) ∧
    (∀ i j id id' (channel : Nat), ⟨.register id, channel⟩ ∈ p.known i →
      ⟨.register id', channel⟩ ∈ p.known j → i = j) ∧
    (p.shared.mail.map Prod.fst).Nodup ∧
    p.shared.received.Perm (p.shared.mail.map Prod.snd ++ p.shared.notified) := by
  have hp : Served calls p := by
    refine h.invariant ⟨?_, ?_, fun i => safe_call _ _⟩ fun _ _ _ ha hab => ha.step hab
    · constructor <;> simp [start, held]
    · constructor <;> simp [start]
  have hsent : (p.shared.mail.map Prod.fst).Sublist ((held p.shared).map Prod.fst) := by
    simp [held, Function.comp_def]
  refine ⟨fun i v hdone => ?_, hp.lined.apart, hp.routed.once.sublist hsent, hp.routed.kept⟩
  have hends := hp.safe i
  rw [hdone] at hends
  obtain ⟨id, channel, reply, hline, hrecv, hvalue⟩ := hends v rfl
  have hmail := hp.lined.got (some i) channel reply hrecv
  -- the channel was opened for the call's id, and for that of the message
  have hfits := hp.routed.fits _ (List.mem_append_left _ (List.mem_map_of_mem hmail))
  have hid := hfits.2.symm.trans (hp.lined.line (some i) id channel hline)
  exact ⟨id, channel, reply, hline, hmail, hid, hvalue⟩

theorem answers_answer (s : RpcState) (q : RpcRequest) :
    s.Answers q (s.answer q) (s.after q (s.answer q)) := by
  refine ⟨?_, rfl⟩
  cases q with
  | nextId | register _ => rfl
  | write _ | turn => trivial
  | recv channel =>
      intro reply hfound
      obtain ⟨_, _, hmail, -⟩ := List.lookup_eq_some_iff.mp hfound
      simp [hmail]

end

/-- Two calls. -/
def twoCalls : Fin 2 → String × Json := fun i => (toString i, .null)

/-- Both calls write before the reader reads, and it reads the reply to the second call first. -/
def crossed : RpcPool (Option (Fin 2)) :=
  played wire (fun s q => (s.answer q, s.after q (s.answer q))) (start twoCalls 2)
    [some 0, some 0, some 0, some 1, some 1, some 1, none, none, some 0]

theorem replies_routed_crossed :
    ∃ id channel reply, ⟨.register id, channel⟩ ∈ crossed.known (some 0) ∧
      (channel, reply) ∈ crossed.shared.mail ∧ idOf reply = some id ∧
      replyOf (twoCalls 0).1 reply = .ok (.string "1") :=
  (replies_routed (run_play answers_answer _ _)).1 0 _ rfl

end Frust.Kernel.Wsrpc
