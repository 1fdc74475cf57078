import Frust.Kernel.Wire
import Frust.Lib.Bytes
import Frust.Lib.Pool

/-!
# `Frust.Kernel.Wsrpc`: the frames of a WebSocket, and the calls on it

The connection to the database's `/rpc` endpoint. `writeFrame` sends one frame, and `readFrame` reads
the next one; a ping on the way is answered. A reader thread reads until there is an error. `call`
and `reader` are the calls and that thread, which share the table of those that wait.

A stream is the bytes that the peer sends and that are not read yet, with what was written so far.
A read past the last byte is at the end of the file. A length that no allocation has room for is no
other than one that the peer's bytes fall short of: the read is an error.
-/

set_option autoImplicit false

namespace Frust.Kernel

open Frust.Lib

namespace Wsrpc

/-- The four bytes of a mask, as `entropy` makes them. -/
abbrev Mask := Fin 4 → UInt8

/-- The byte that is for place `i`: `mask[i % 4]`. -/
def Mask.key (mask : Mask) (i : Nat) : UInt8 := mask (Fin.ofNat 4 i)

/-- `TcpStream`, with the counter that the masks are made from. -/
structure Stream where
  input : List UInt8
  output : List UInt8
  seq : Nat
  /-- The error that a write ends in, where the peer does not take it. -/
  broken : Option String := none
  deriving DecidableEq

/-! ### Writing -/

/-- The bytes of the frame that `write_frame` sends. -/
def frameBytes (opcode : UInt8) (payload : List UInt8) (mask : Mask) : List UInt8 :=
  let length :=
    if payload.length < 126 then [0x80 ||| UInt8.ofNat payload.length]
    else if payload.length ≤ 65535 then (0x80 ||| 126) :: Bytes.toBe 2 payload.length
    else (0x80 ||| 127) :: Bytes.toBe 8 payload.length
  -- FIN and the opcode
  (0x80 ||| opcode) :: length ++ List.ofFn mask ++ Bytes.xorKey mask.key payload

/-- `write_frame`, with the mask that `entropy(seq)` made. -/
def writeFrame (opcode : UInt8) (payload : List UInt8) (mask : Mask) (s : Stream) :
    Except BrokerError Stream :=
  match s.broken with
  | some e => .error (.db ("ws write: " ++ e))
  | none => .ok { s with output := s.output ++ frameBytes opcode payload mask }

theorem input_of_writeFrame {opcode : UInt8} {payload : List UInt8} {mask : Mask} {s s' : Stream}
    (h : writeFrame opcode payload mask s = .ok s') : s'.input = s.input := by
  unfold writeFrame at h
  split at h
  · cases h
  · cases h
    rfl

/-! ### Reading -/

/-- `read_exact`, on what is not read yet. -/
def readExact (n : Nat) (input : List UInt8) : Except BrokerError (List UInt8 × List UInt8) :=
  match Bytes.takeExact n input with
  | some pair => .ok pair
  | none => .error (.db "ws read: failed to fill whole buffer")

/-- The length of a payload, from the second byte and what follows it. -/
def readLength (b : UInt8) (input : List UInt8) : Except BrokerError (Nat × List UInt8) :=
  let len := (b &&& 0x7F).toNat
  if len = 126 then (readExact 2 input).map fun (ext, rest) => (Bytes.ofBe ext, rest)
  else if len = 127 then (readExact 8 input).map fun (ext, rest) => (Bytes.ofBe ext, rest)
  else .ok (len, input)

/-- The mask, where there is one. -/
def readMask (masked : Bool) (input : List UInt8) : Except BrokerError (Mask × List UInt8) :=
  if masked then (readExact 4 input).map fun (mask, rest) => (fun i => mask.getD i 0, rest)
  else .ok (fun _ => 0, input)

/-- One frame, up to the match of `read_frame`: its opcode and its payload. -/
def readOne (input : List UInt8) : Except BrokerError ((UInt8 × List UInt8) × List UInt8) := do
  let (head, rest) ← readExact 2 input
  let opcode := head.getD 0 0 &&& 0x0F
  let masked := head.getD 1 0 &&& 0x80 != 0
  let (len, rest) ← readLength (head.getD 1 0) rest
  let (mask, rest) ← readMask masked rest
  let (payload, rest) ← readExact len rest
  return ((opcode, if masked then Bytes.xorKey mask.key payload else payload), rest)

theorem length_of_readExact {n : Nat} {input a rest : List UInt8}
    (h : readExact n input = .ok (a, rest)) : rest.length + n = input.length := by
  unfold readExact at h
  split at h
  · rename_i pair htake
    cases h
    obtain ⟨rfl, rfl⟩ := Bytes.takeExact_inv htake
    rw [List.length_append, Nat.add_comm]
  · cases h

theorem length_of_map {α : Type} {n : Nat} {input rest : List UInt8} {a : α}
    {f : List UInt8 → α}
    (h : (readExact n input).map (fun (bytes, rest) => (f bytes, rest)) = .ok (a, rest)) :
    rest.length ≤ input.length := by
  cases hread : readExact n input with
  | error e =>
      rw [hread] at h
      cases h
  | ok pair =>
      rw [hread] at h
      cases h
      have hlength := length_of_readExact hread
      omega

theorem length_of_readLength {b : UInt8} {input rest : List UInt8} {n : Nat}
    (h : readLength b input = .ok (n, rest)) : rest.length ≤ input.length := by
  unfold readLength at h
  dsimp only at h
  split at h
  · exact length_of_map h
  · split at h
    · exact length_of_map h
    · cases h
      exact le_rfl

theorem length_of_readMask {masked : Bool} {input rest : List UInt8} {mask : Mask}
    (h : readMask masked input = .ok (mask, rest)) : rest.length ≤ input.length := by
  unfold readMask at h
  split at h
  · exact length_of_map (f := fun mask (i : Fin 4) => mask.getD i 0) h
  · cases h
    exact le_rfl

/-- A frame is cut off what is to be read. -/
theorem length_of_readOne {input rest : List UInt8} {frame : UInt8 × List UInt8}
    (h : readOne input = .ok (frame, rest)) : rest.length < input.length := by
  unfold readOne at h
  obtain ⟨⟨head, rest₁⟩, hhead, h⟩ := bind_eq_ok h
  obtain ⟨⟨len, rest₂⟩, hlen, h⟩ := bind_eq_ok h
  obtain ⟨⟨mask, rest₃⟩, hmask, h⟩ := bind_eq_ok h
  obtain ⟨⟨payload, rest₄⟩, hpayload, h⟩ := bind_eq_ok h
  cases h
  have h₁ := length_of_readExact hhead
  have h₂ := length_of_readLength hlen
  have h₃ := length_of_readMask hmask
  have h₄ := length_of_readExact hpayload
  omega

/-- `read_frame`. What a frame that cannot be read leaves unread is of no use. -/
def readFrame (entropy : Nat → Mask) (s : Stream) :
    Except BrokerError (UInt8 × List UInt8) × Stream :=
  match _hread : readOne s.input with
  | .error e => (.error e, s)
  | .ok ((opcode, payload), rest) =>
      if opcode = 0x9 then
        -- a ping is answered with a pong of the same payload
        let s' := { s with input := rest, seq := (s.seq + 1) % 2 ^ 64 }
        match _hwrite : writeFrame 0xA payload (entropy s.seq) s' with
        | .error e => (.error e, s')
        | .ok s'' => readFrame entropy s''
      else if opcode = 0x8 then (.error (.db "ws closed by server"), { s with input := rest })
      else if opcode = 0x0 then
        (.error (.db "ws fragmentation unsupported"), { s with input := rest })
      else (.ok (opcode, payload), { s with input := rest })
termination_by s.input.length
decreasing_by
  rw [input_of_writeFrame _hwrite]
  exact length_of_readOne _hread

theorem length_of_readFrame {entropy : Nat → Mask} {s s' : Stream} {frame : UInt8 × List UInt8}
    (h : readFrame entropy s = (.ok frame, s')) : s'.input.length < s.input.length := by
  fun_induction readFrame entropy s with
  | case1 s e hread => cases h
  | case2 s payload rest hread s₁ e hwrite => cases h
  | case3 s payload rest s₁ s₂ hwrite hread ih =>
      have hlt := ih h
      rw [input_of_writeFrame hwrite] at hlt
      exact hlt.trans (length_of_readOne hread)
  | case4 s payload rest hread => cases h
  | case5 s payload rest hread => cases h
  | case6 s opcode payload rest hread hping hclose hmore =>
      cases h
      exact length_of_readOne hread

/-! ### The reader thread -/

/-- What the reader thread was handed, the error that it ended with, and the stream after. -/
structure Reading where
  messages : List (UInt8 × List UInt8)
  error : BrokerError
  stream : Stream

/-- The loop of the reader thread, which reads until there is an error. -/
def readAll (entropy : Nat → Mask) (s : Stream) : Reading :=
  match _h : readFrame entropy s with
  | (.error e, s') => ⟨[], e, s'⟩
  | (.ok frame, s') =>
      let rest := readAll entropy s'
      { rest with messages := frame :: rest.messages }
termination_by s.input.length
decreasing_by exact length_of_readFrame _h

/-! ### Calls -/

/-- What a call or the reader thread does next. -/
inductive RpcRequest where
  /-- `next_id.fetch_add`. -/
  | nextId
  /-- A channel is made, and its sender is put into the table. -/
  | register (id : String)
  /-- `write_frame`, of a text. -/
  | write (message : Json)
  /-- `recv_timeout`. -/
  | recv (channel : Nat)
  /-- A turn of the reader thread, which touches the table once. -/
  | turn

/-- The answers. -/
abbrev RpcAnswer : RpcRequest → Type
  | .nextId | .register _ => Nat
  | .write _ => Except BrokerError Unit
  | .recv _ => Option Json
  -- the JSON of a text that was read, nothing for another frame, or the error
  | .turn => Except BrokerError (Option Json)

/-- A thread's program. -/
abbrev RpcProg := Prog BrokerError RpcRequest RpcAnswer

/-- The `id` of a message. -/
def idOf (message : Json) : Option String := (message.get "id").bind Json.asStr

/-- What a call makes of its reply. -/
def replyOf (method : String) (reply : Json) : Except BrokerError Json :=
  match reply.get "error" with
  | none | some .null => .ok ((reply.get "result").getD .null)
  | some err => .error (.db ("ws rpc " ++ method ++ ": " ++ err.text))

/-- `call`. -/
def call (method : String) (params : Json) : RpcProg Json :=
  .ask .nextId fun (n : Nat) =>
    let id := toString n
    .ask (.register id) fun (channel : Nat) =>
      let msg := .object [("id", .string id), ("method", .string method), ("params", params)]
      .ask (.write msg) fun (sent : Except BrokerError Unit) =>
        match sent with
        | .error e => .done (.error e)
        | .ok () => .ask (.recv channel) fun (reply : Option Json) =>
            match reply with
            | none => .done (.error (.db ("ws rpc timeout: " ++ method)))
            | some reply => .done (replyOf method reply)

/-- The reader thread, for a number of turns. It ends at an error. -/
def reader : Nat → RpcProg Json
  | 0 => .done (.ok .null)
  | turns + 1 => .ask .turn fun (msg : Except BrokerError (Option Json)) =>
      match msg with
      | .error e => .done (.error e)
      | .ok _ => reader turns

/-- What the threads share, with what was read and handed on so far, the last first. A channel is the
place of its id in `opened`. -/
structure RpcState where
  nextId : Nat := 1
  opened : List String := []
  pending : List (String × Nat) := []
  received : List Json := []
  mail : List (Nat × Json) := []
  notified : List Json := []

namespace RpcState

/-- The table without an id. -/
def without (s : RpcState) (id : String) : List (String × Nat) := s.pending.filter (·.1 ≠ id)

/-- The sender that a message is for, with its id. -/
def sender (s : RpcState) (msg : Json) : Option (String × Nat) := do
  let id ← idOf msg
  let tx ← s.pending.lookup id
  return (id, tx)

/-- A message is sent to a call that waits for it, or else passed to `on_notify`. -/
def route (s : RpcState) (msg : Json) : RpcState :=
  match s.sender msg with
  | some (id, tx) => { s with
      pending := s.without id, received := msg :: s.received, mail := (tx, msg) :: s.mail }
  | none => { s with received := msg :: s.received, notified := msg :: s.notified }

/-- What a request may be answered. The peer sends any messages. -/
def Allowed (s : RpcState) : (q : RpcRequest) → RpcAnswer q → Prop
  | .nextId, n => n = s.nextId
  | .register _, channel => channel = s.opened.length
  | .recv channel, r => ∀ reply, r = some reply → (channel, reply) ∈ s.mail
  | .write _, _ | .turn, _ => True

/-- What a request does that is answered so. -/
def after (s : RpcState) : (q : RpcRequest) → RpcAnswer q → RpcState
  | .nextId, _ => { s with nextId := (s.nextId + 1) % 2 ^ 64 }
  | .register id, channel =>
      { s with opened := s.opened ++ [id], pending := (id, channel) :: s.without id }
  | .turn, .ok (some msg) => s.route msg
  | _, _ => s

/-- One request. -/
def Answers (s : RpcState) (q : RpcRequest) (r : RpcAnswer q) (s' : RpcState) : Prop :=
  s.Allowed q r ∧ s' = s.after q r

/-- A peer that answers the last call first. -/
def answer (s : RpcState) : (q : RpcRequest) → RpcAnswer q
  | .nextId => s.nextId
  | .register _ => s.opened.length
  | .write _ => .ok ()
  | .recv channel => s.mail.lookup channel
  | .turn => .ok (s.pending.head?.map fun (id, _) => .object [("id", .string id), ("result", .string id)])

end RpcState

end Wsrpc

end Frust.Kernel
