import Mathlib.Logic.Function.Basic
import V8InspectorMinimal.Base.Locks
import V8InspectorMinimal.Inspector.StringView

/-! `TWebsocketServerPeer` of TApiWebsocket.cpp: one connected client, its read thread and the
threads that call `Send` on it. A program counter names the statement a thread is about to run, and
a step runs it, so that a schedule may put any step of another thread in between. -/

namespace V8Min.Socket
open Locks

abbrev SoyRef := ℕ

abbrev BufferId := ℕ

inductive AssertException where
  | alreadySentReply
  | sendBeforeHandshake
  | encodeToProtocol
  | clientNotFound
  deriving DecidableEq, Repr

def AssertException.what : AssertException → String
  | alreadySentReply => "Already sent handshake reply"
  | sendBeforeHandshake => "Sending message before handshake complete"
  | encodeToProtocol => "Encode to websocket protocol"
  | clientNotFound => "Client not found"

inductive Kind where
  | text
  | binary
  deriving DecidableEq, Repr

inductive Opcode where
  | text
  | binary
  | continuation
  deriving DecidableEq, Repr

structure Fragment where
  opcode : Opcode
  fin : Bool
  payload : List UInt8
  deriving DecidableEq, Repr

/-- What `OnDataRecieved` asks of SoyLib's `WebSocket::TMessageBuffer`: `IsCompleteTextMessage` and
`IsCompleteBinaryMessage`, `mTextData` and `mBinaryData`. A buffer is known by the fragments that
were decoded into it since it was made. -/
structure MessageBufferLib where
  isComplete : Kind → List Fragment → Bool
  data : Kind → List Fragment → List UInt8
  -- whether SoyLib's read thread goes on after an exception of OnDataRecieved
  readsOn : Bool

inductive Packet where
  | reply (r : StdString)
  | message (m : StdString)
  deriving DecidableEq, Repr

/-- `WebSocket::TRequestProtocol` as SoyLib returns it from decoding. -/
structure TRequestProtocol where
  mReplyMessage : Option StdString
  mMessage : Option BufferId
  deriving DecidableEq

inductive PeerThread where
  | reader
  | sender (t : ℕ)
  deriving DecidableEq, Repr

inductive ReaderPc where
  -- AllocProtocol, and SoyLib decoding with the protocol it returned
  | idle
  | allocProtocol
  | unlockAlloc (b : BufferId)
  | decoding (b : BufferId)
  -- OnDataRecieved, first on the handshake reply
  | onDataRecieved (d : TRequestProtocol)
  | setHasSent (r : StdString)
  | pushReply (r : StdString)
  -- then on a complete message, once for each kind
  | testComplete (k : Kind) (b : BufferId)
  | callHandler (k : Kind) (b : BufferId)
  | handling (k : Kind) (b : BufferId)
  | lockReset (k : Kind) (b : BufferId)
  | reset (k : Kind) (b : BufferId)
  | unlockReset (k : Kind) (b : BufferId)
  -- an exception has left OnDataRecieved
  | threw
  deriving DecidableEq

inductive PeerEvent where
  | allocated (b : BufferId) (content : List Fragment)
  | decoded (b : BufferId) (f : Fragment)
  | delivered (k : Kind) (data : List UInt8)
  | threw (e : AssertException)
  deriving DecidableEq

structure Peer where
  mConnectionRef : SoyRef := 0
  -- a field of mHandshake
  mHasSentAcceptReply : Bool := false
  -- every packet pushed so far
  writeQueue : List Packet := []
  mCurrentMessageLock : RecursiveMutex PeerThread := {}
  mCurrentMessage : Option BufferId := none
  -- the heap of message buffers
  buffers : BufferId → List Fragment := fun _ => []
  nextBuffer : BufferId := 0
  reader : ReaderPc := .idle
  log : List PeerEvent := []

namespace Peer

def isCompleted (p : Peer) : Bool := p.mHasSentAcceptReply

def push (p : Peer) (packet : Packet) : Peer := { p with writeQueue := p.writeQueue ++ [packet] }

def emit (p : Peer) (e : PeerEvent) : Peer := { p with log := p.log ++ [e] }

def send (p : Peer) (message : StdString) : Peer × Except AssertException Unit :=
  if p.isCompleted then (p.push (.message message), .ok ())
  else (p, .error .sendBeforeHandshake)

def sendBinary (p : Peer) (_message : List UInt8) : Peer × Except AssertException Unit :=
  (p, .error .encodeToProtocol)

def allocProtocol (p : Peer) : Peer × BufferId :=
  match p.mCurrentMessage with
  | some b => (p, b)
  | none =>
    ({ p with
        mCurrentMessage := some p.nextBuffer
        buffers := Function.update p.buffers p.nextBuffer []
        nextBuffer := p.nextBuffer + 1 }, p.nextBuffer)

@[simp] theorem allocProtocol_mHasSentAcceptReply (p : Peer) :
    p.allocProtocol.1.mHasSentAcceptReply = p.mHasSentAcceptReply := by
  rw [allocProtocol]
  split <;> rfl

@[simp] theorem allocProtocol_mConnectionRef (p : Peer) :
    p.allocProtocol.1.mConnectionRef = p.mConnectionRef := by
  rw [allocProtocol]
  split <;> rfl

@[simp] theorem allocProtocol_writeQueue (p : Peer) :
    p.allocProtocol.1.writeQueue = p.writeQueue := by
  rw [allocProtocol]
  split <;> rfl

def decodeInto (p : Peer) (b : BufferId) (f : Fragment) : Peer :=
  { p with buffers := Function.update p.buffers b (p.buffers b ++ [f]) }

end Peer

/-! ## The read thread -/

/-- `next` runs the thread's own next statement; the others are what SoyLib decoded and how the
handler, called through a `std::function`, came back. -/
inductive ReaderAct where
  | next
  | decoded (reply : Option StdString) (fragment : Option Fragment)
  | handlerReturns
  | handlerThrows
  deriving DecidableEq

/-- `OnDataRecieved` asks for a complete text message, then for a complete binary one. -/
def nextKind (k : Kind) (b : BufferId) : ReaderPc :=
  match k with
  | .text => .testComplete .binary b
  | .binary => .idle

def readerStep (soy : MessageBufferLib) (p : Peer) (a : ReaderAct) : Option Peer :=
  match p.reader, a with
  | .idle, .next =>
    (p.mCurrentMessageLock.lock .reader).map fun l =>
      { p with mCurrentMessageLock := l, reader := .allocProtocol }
  | .allocProtocol, .next =>
    some { p.allocProtocol.1 with reader := .unlockAlloc p.allocProtocol.2 }
  | .unlockAlloc b, .next =>
    some { p.emit (.allocated b (p.buffers b)) with
      mCurrentMessageLock := p.mCurrentMessageLock.unlock, reader := .decoding b }
  | .decoding b, .decoded reply none => some { p with reader := .onDataRecieved ⟨reply, some b⟩ }
  | .decoding b, .decoded reply (some f) =>
    some { (p.decodeInto b f).emit (.decoded b f) with reader := .onDataRecieved ⟨reply, some b⟩ }
  | .onDataRecieved ⟨some r, _⟩, .next =>
    if p.mHasSentAcceptReply then some { p.emit (.threw .alreadySentReply) with reader := .threw }
    else some { p with reader := .setHasSent r }
  | .onDataRecieved ⟨none, none⟩, .next => some { p with reader := .idle }
  | .onDataRecieved ⟨none, some b⟩, .next => some { p with reader := .testComplete .text b }
  | .setHasSent r, .next => some { p with mHasSentAcceptReply := true, reader := .pushReply r }
  | .pushReply r, .next => some { p.push (.reply r) with reader := .idle }
  | .testComplete k b, .next =>
    if soy.isComplete k (p.buffers b) then some { p with reader := .callHandler k b }
    else some { p with reader := nextKind k b }
  | .callHandler k b, .next =>
    some { p.emit (.delivered k (soy.data k (p.buffers b))) with reader := .handling k b }
  | .handling k b, .handlerReturns => some { p with reader := .lockReset k b }
  -- the exception leaves OnDataRecieved before mCurrentMessage is reset
  | .handling _ _, .handlerThrows => some { p with reader := .threw }
  | .lockReset k b, .next =>
    (p.mCurrentMessageLock.lock .reader).map fun l =>
      { p with mCurrentMessageLock := l, reader := .reset k b }
  | .reset k b, .next => some { p with mCurrentMessage := none, reader := .unlockReset k b }
  | .unlockReset k b, .next =>
    some { p with mCurrentMessageLock := p.mCurrentMessageLock.unlock, reader := nextKind k b }
  | .threw, .next => if soy.readsOn then some { p with reader := .idle } else none
  | _, _ => none

/-! ## The peer with the threads that send on it -/

inductive SendPc where
  | idle
  | isCompleted (m : StdString)
  | push (m : StdString)
  | threw (e : AssertException)
  deriving DecidableEq

structure PeerSystem where
  peer : Peer := {}
  senders : ℕ → SendPc := fun _ => .idle

def PeerSystem.init (c : SoyRef) : PeerSystem := { peer := { mConnectionRef := c } }

inductive PeerAct where
  | reader (a : ReaderAct)
  | send (t : ℕ) (m : StdString)
  | sender (t : ℕ)
  deriving DecidableEq

def PeerSystem.setSender (s : PeerSystem) (t : ℕ) (pc : SendPc) : PeerSystem :=
  { s with senders := Function.update s.senders t pc }

@[simp] theorem PeerSystem.setSender_peer (s : PeerSystem) (t : ℕ) (pc : SendPc) :
    (s.setSender t pc).peer = s.peer := rfl

@[simp] theorem PeerSystem.setSender_senders (s : PeerSystem) (t : ℕ) (pc : SendPc) :
    (s.setSender t pc).senders = Function.update s.senders t pc := rfl

theorem PeerSystem.setSender_self (s : PeerSystem) (t : ℕ) (pc : SendPc) :
    (s.setSender t pc).senders t = pc := Function.update_self ..

def peerStep (soy : MessageBufferLib) (s : PeerSystem) : PeerAct → Option PeerSystem
  | .reader a => (readerStep soy s.peer a).map fun p => { s with peer := p }
  | .send t m =>
    match s.senders t with
    | .idle | .threw _ => some (s.setSender t (.isCompleted m))
    | .isCompleted _ | .push _ => none
  | .sender t =>
    match s.senders t with
    | .isCompleted m =>
      if s.peer.isCompleted then some (s.setSender t (.push m))
      else some (s.setSender t (.threw .sendBeforeHandshake))
    | .push m => some { s.setSender t .idle with peer := s.peer.push (.message m) }
    | .idle | .threw _ => none

end V8Min.Socket
