import MessageTransmitter.Library.Bytes

/-!
# Messages

`common/message_format.h`: the message record, its constants, its compact rendering and its generators,
and the raw bytes of messages and commands that both programs hand to the sockets.
-/

open Bytes

namespace MessageTransmitter

structure MessageFormat where
  messageSize : UInt16 := 0
  messageType : UInt8 := 0
  messageId : UInt64 := 0
  messageData : UInt64 := 0
  deriving DecidableEq, Repr, Inhabited

/-- `sizeof(MessageFormat)`: three bytes of fields, five of padding, two 64-bit fields. -/
def messageFormatSize : ℕ := 24

-- `sizeof(int)`
def commandSize : ℕ := 4

def tcpResendID : UInt64 := 10

def MessageFormat.toStringCompact (msg : MessageFormat) : String :=
  "msg \x7b " ++ toString msg.messageSize.toNat ++ ", " ++ toString msg.messageType.toNat ++ ", " ++
    toString msg.messageId.toNat ++ ", " ++ toString msg.messageData.toNat ++ " \x7d"

/-! ## Generators -/

def makeMessageDiv20 (seed : UInt64) : MessageFormat :=
  let id := seed % 20
  let data := seed
  ⟨0, 0, id, data⟩

def makeMessageWithId (id : UInt64) : MessageFormat := ⟨0, 0, id, id⟩

/-! ## The raw struct -/

abbrev RawMessage := Buffer messageFormatSize

/-- The object's bytes on a little-endian machine.  The five padding bytes behind `MessageType`
carry no field and may hold anything. -/
def MessageFormat.toRaw (msg : MessageFormat) (padding : Buffer 5) : RawMessage where
  bytes := leBytes 2 msg.messageSize.toNat ++ leBytes 1 msg.messageType.toNat ++ padding.bytes ++
    leBytes 8 msg.messageId.toNat ++ leBytes 8 msg.messageData.toNat
  length_eq := by
    simp only [List.length_append, length_leBytes, padding.length_eq]
    rfl

def MessageFormat.ofRaw (raw : RawMessage) : MessageFormat where
  messageSize := UInt16.ofNat (leNat (raw.bytes.take 2))
  messageType := UInt8.ofNat (leNat ((raw.bytes.drop 2).take 1))
  messageId := UInt64.ofNat (leNat ((raw.bytes.drop 8).take 8))
  messageData := UInt64.ofNat (leNat ((raw.bytes.drop 16).take 8))

/-- Reading the struct back yields the message, whatever its padding holds. -/
@[simp] theorem MessageFormat.ofRaw_toRaw (msg : MessageFormat) (padding : Buffer 5) :
    ofRaw (msg.toRaw padding) = msg := by
  -- every field is read at the offset where `toRaw` put it
  obtain ⟨size, type, id, data⟩ := msg
  obtain ⟨pad, hpad⟩ := padding
  have hsize : (leBytes 2 size.toNat).length = 2 := length_leBytes _ _
  have htype : (leBytes 1 type.toNat).length = 1 := length_leBytes _ _
  have hid : (leBytes 8 id.toNat).length = 8 := length_leBytes _ _
  have hdata : (leBytes 8 data.toNat).length = 8 := length_leBytes _ _
  simp only [ofRaw, toRaw, MessageFormat.mk.injEq]
  refine ⟨?_, ?_, ?_, ?_⟩
  · rw [List.append_assoc, List.append_assoc, List.append_assoc, List.take_left' hsize,
      leNat_leBytes_of_lt size.toNat_lt, UInt16.ofNat_toNat]
  · rw [List.append_assoc, List.append_assoc, List.append_assoc, List.drop_left' hsize,
      List.take_left' htype, leNat_leBytes_of_lt type.toNat_lt, UInt8.ofNat_toNat]
  · rw [List.append_assoc, List.drop_left' (by simp [hpad]), List.take_left' hid,
      leNat_leBytes_of_lt id.toNat_lt, UInt64.ofNat_toNat]
  · rw [List.drop_left' (by simp [hpad]), List.take_of_length_le hdata.le,
      leNat_leBytes_of_lt data.toNat_lt, UInt64.ofNat_toNat]

/-! ## Commands -/

def commandToRaw (c : Int32) : Buffer commandSize where
  bytes := leBytes 4 c.toUInt32.toNat
  length_eq := length_leBytes _ _

def commandOfRaw (raw : Buffer commandSize) : Int32 := (UInt32.ofNat (leNat raw.bytes)).toInt32

@[simp] theorem commandOfRaw_commandToRaw (c : Int32) : commandOfRaw (commandToRaw c) = c := by
  rw [commandOfRaw, commandToRaw, leNat_leBytes_of_lt c.toUInt32.toNat_lt, UInt32.ofNat_toNat]
  rfl

end MessageTransmitter
