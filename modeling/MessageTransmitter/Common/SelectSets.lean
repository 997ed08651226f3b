import MessageTransmitter.Common.FdSet
import MessageTransmitter.Common.UdpSocket

/-!
# `select` on a UDP socket

`UDPSocket::preSelect`, `select`, `readyRecv` and `readySend` over the three `fd_set`s of the
socket, which its constructor leaves uninitialised.
-/

namespace MessageTransmitter

structure SocketSets where
  mRecvSocketSet : FdSet
  mSendSocketSet : FdSet
  mExceSocketSet : FdSet

namespace UDPSocket

def preSelect (s : UDPSocket) (sets : SocketSets) : Except DescriptorFault SocketSets := do
  let sets := { sets with mRecvSocketSet := fdZero }
  let sets := { sets with mSendSocketSet := fdZero }
  let sets := { sets with mExceSocketSet := fdZero }
  let recv ← fdSet s.mSocket sets.mRecvSocketSet
  let sets := { sets with mRecvSocketSet := recv }
  let send ← fdSet s.mSocket sets.mSendSocketSet
  let sets := { sets with mSendSocketSet := send }
  let exce ← fdSet s.mSocket sets.mExceSocketSet
  return { sets with mExceSocketSet := exce }

def select (s : UDPSocket) (sets : SocketSets) (res : SelectResult) :
    Except DescriptorFault (Int × SocketSets) := do
  let sets ← s.preSelect sets
  -- the third set is not passed on
  let (nready, recv, send) := sysSelect (s.mSocket + 1) sets.mRecvSocketSet sets.mSendSocketSet res
  return (nready, { sets with mRecvSocketSet := recv, mSendSocketSet := send })

def readyRecv (s : UDPSocket) (sets : SocketSets) : Except DescriptorFault Bool :=
  fdIsset s.mSocket sets.mRecvSocketSet

def readySend (s : UDPSocket) (sets : SocketSets) : Except DescriptorFault Bool :=
  fdIsset s.mSocket sets.mSendSocketSet

variable {s : UDPSocket} {sets : SocketSets} {res : SelectResult}

theorem select_error (h : s.mSocket < 0 ∨ fdSetSize ≤ s.mSocket) :
    s.select sets res = .error (.outOfRange s.mSocket) := by
  have hpre : s.preSelect sets = .error (.outOfRange s.mSocket) := by
    unfold preSelect fdSet
    rw [fdBit_error h]
    rfl
  rw [select, hpre]
  rfl

/-- Nothing of the sets before the call is left, only what the answer says about the socket. -/
theorem select_ok (h : ¬ (s.mSocket < 0 ∨ fdSetSize ≤ s.mSocket)) :
    s.select sets res = .ok ((res.about s.mSocket).1,
      ⟨.single (fdIndex s.mSocket) (res.about s.mSocket).2.1,
        .single (fdIndex s.mSocket) (res.about s.mSocket).2.2,
        .single (fdIndex s.mSocket) true⟩) := by
  have hpre : s.preSelect sets = .ok ⟨.single (fdIndex s.mSocket) true,
      .single (fdIndex s.mSocket) true, .single (fdIndex s.mSocket) true⟩ := by
    unfold preSelect fdSet
    rw [fdBit_ok h]
    rfl
  have hlt : ((fdIndex s.mSocket).val : Int) < s.mSocket + 1 := by
    rw [fdIndex_val h]
    omega
  rw [select, hpre]
  cases res with
  | error => rfl
  | ready readable writable =>
    show Except.ok _ = Except.ok _
    dsimp only [sysSelect, SelectResult.about]
    rw [FdSet.polled_single hlt, FdSet.polled_single hlt, FdSet.count_single, FdSet.count_single]

end UDPSocket

end MessageTransmitter
