import Mathlib.Data.Int.Notation
import V8InspectorMinimal.Inspector.StringView
import V8InspectorMinimal.Socket.Server

/-! `v8min_main_helloworld` of v8Minimal.cpp with everything that runs beside it: V8 on the main
thread, the accept thread of the websocket server, and a read thread for each of its peers. Each
thread has a program counter that names the statement it is about to run. -/

namespace V8Min
open Locks Socket

inductive Thread where
  | main
  | accept
  | reader (p : PeerId)
  deriving DecidableEq, Repr

/-- Where a read thread is in `TWebsocketMessageChannel`'s `OnTextMessage`, and in the `OnMessage`
that this calls. -/
inductive HandlerPc where
  | idle
  | record (c : SoyRef) (m : StdString)
  | lock (c : SoyRef) (m : StdString)
  | pushBack (c : SoyRef) (m : StdString)
  | unlock
  | returned
  | threw
  deriving DecidableEq, Repr

inductive AcceptPc where
  | idle
  | construct (c : SoyRef)
  | lockClients (p : PeerId)
  | pushBack (p : PeerId)
  | unlockClients
  deriving DecidableEq, Repr

inductive Site where
  | helloWorld
  | task
  | dispatch
  deriving DecidableEq, Repr

/-- Where the main thread is while V8 has control, or has called the program back. -/
inductive Frame where
  | script
  | runMessageLoopOnPause
  -- SendResponse, then Send and GetClient of the server, then Send of the peer
  | sendResponse (m : StdString)
  | lockClients (c : SoyRef) (m : StdString)
  | getClient (c : SoyRef) (m : StdString)
  | unlockClients (c : SoyRef) (m : StdString) (p : PeerId)
  | isCompleted (c : SoyRef) (m : StdString) (p : PeerId)
  | push (c : SoyRef) (m : StdString) (p : PeerId)
  deriving DecidableEq, Repr

inductive MainPc where
  | startup
  | inV8 (site : Site) (frame : Frame)
  -- an exception has left TV8Channel::sendResponse into V8
  | threw (site : Site) (e : AssertException)
  -- the loop
  | testOnlyMessages
  | pumpMessageLoop
  | lockMessages
  | testMessages
  | popMessage
  | unlockMessages
  | sleep
  deriving DecidableEq, Repr

inductive Event where
  | textMessage (p : PeerId) (c : SoyRef) (m : StdString)
  | recorded (p : PeerId) (c : SoyRef) (m : StdString)
  | acquired (p : PeerId) (c : SoyRef) (m : StdString)
  | pushed (p : PeerId) (c : SoyRef) (m : StdString)
  | pumpEntered
  | taskStarted
  | drainEntered (queue : List StdString)
  | dispatched (m : StdString)
  | drainLeft
  | paused
  | pauseReturned
  | quit
  | sent (site : Site) (c : SoyRef) (m : StdString)
  | queued (p : PeerId) (c : SoyRef) (m : StdString)
  deriving DecidableEq, Repr

structure Host where
  messages : List StdString := []
  messagesLock : Mutex Thread := {}
  runOnlyMessagesInLoop : Bool := false
  mWebsocketClient : SoyRef := 0
  mWebsocketServer : Server := {}
  mClientsLock : RecursiveMutex Thread := {}
  -- the peers whose connections are open
  live : PeerId → Bool := fun _ => false
  handlers : PeerId → HandlerPc := fun _ => .idle
  accept : AcceptPc := .idle
  main : MainPc := .startup
  log : List Event := []

namespace Host

def emit (s : Host) (e : Event) : Host := { s with log := s.log ++ [e] }

def peer (s : Host) (p : PeerId) : Peer := s.mWebsocketServer.peers p

def setPeer (s : Host) (p : PeerId) (peer : Peer) : Host :=
  { s with mWebsocketServer := s.mWebsocketServer.setPeer p peer }

def setHandler (s : Host) (p : PeerId) (pc : HandlerPc) : Host :=
  { s with handlers := Function.update s.handlers p pc }

end Host

/-! ## The main thread -/

/-- `next` runs the thread's own next statement; the others are what V8 and its platform do. -/
inductive MainAct where
  | next
  | pumpMessageLoop (found : Bool)
  | runMessageLoopOnPause
  | quitMessageLoopOnPause
  | sendResponse (callId : ℤ) (message : Inspector.StringView)
  | returns
  deriving DecidableEq, Repr

def Site.afterwards : Site → MainPc
  | helloWorld => .testOnlyMessages
  | task => .pumpMessageLoop
  | dispatch => .testMessages

def mainStep (s : Host) (a : MainAct) : Option Host :=
  match s.main, a with
  | .startup, .next => some { s with main := .inV8 .helloWorld .script }
  | .inV8 site .script, .returns => some { s with main := site.afterwards }
  -- runMessageLoopOnPause calls RunMessageLoop, which sets the flag and returns
  | .inV8 site .script, .runMessageLoopOnPause =>
    some { s.emit .paused with
      runOnlyMessagesInLoop := true, main := .inV8 site .runMessageLoopOnPause }
  | .inV8 site .runMessageLoopOnPause, .next =>
    some { s.emit .pauseReturned with main := .inV8 site .script }
  | .inV8 _ .script, .quitMessageLoopOnPause =>
    some { s.emit .quit with runOnlyMessagesInLoop := false }
  | .inV8 site .script, .sendResponse callId message =>
    (Inspector.sendResponse callId message).map fun m =>
      { s with main := .inV8 site (.sendResponse m) }
  | .inV8 site (.sendResponse m), .next =>
    some { s.emit (.sent site s.mWebsocketClient m) with
      main := .inV8 site (.lockClients s.mWebsocketClient m) }
  | .inV8 site (.lockClients c m), .next =>
    (s.mClientsLock.lock .main).map fun l =>
      { s with mClientsLock := l, main := .inV8 site (.getClient c m) }
  | .inV8 site (.getClient c m), .next =>
    match s.mWebsocketServer.getClient c with
    | .ok p => some { s with main := .inV8 site (.unlockClients c m p) }
    | .error e => some { s with mClientsLock := s.mClientsLock.unlock, main := .threw site e }
  | .inV8 site (.unlockClients c m p), .next =>
    some { s with mClientsLock := s.mClientsLock.unlock, main := .inV8 site (.isCompleted c m p) }
  | .inV8 site (.isCompleted c m p), .next =>
    if (s.peer p).isCompleted then some { s with main := .inV8 site (.push c m p) }
    else some { s with main := .threw site .sendBeforeHandshake }
  | .inV8 site (.push c m p), .next =>
    some { (s.setPeer p ((s.peer p).push (.message m))).emit (.queued p c m) with
      main := .inV8 site .script }
  | .testOnlyMessages, .next =>
    if s.runOnlyMessagesInLoop then some { s with main := .lockMessages }
    else some { s.emit .pumpEntered with main := .pumpMessageLoop }
  | .pumpMessageLoop, .pumpMessageLoop true =>
    some { s.emit .taskStarted with main := .inV8 .task .script }
  | .pumpMessageLoop, .pumpMessageLoop false => some { s with main := .lockMessages }
  | .lockMessages, .next =>
    (s.messagesLock.lock .main).map fun l =>
      { s.emit (.drainEntered s.messages) with messagesLock := l, main := .testMessages }
  | .testMessages, .next =>
    match s.messages with
    | [] => some { s with main := .unlockMessages }
    | _ :: _ => some { s with main := .popMessage }
  | .popMessage, .next =>
    match s.messages with
    | [] => none
    | m :: rest =>
      some { s.emit (.dispatched m) with messages := rest, main := .inV8 .dispatch .script }
  | .unlockMessages, .next =>
    some { s.emit .drainLeft with messagesLock := s.messagesLock.unlock, main := .sleep }
  | .sleep, .next => some { s with main := .testOnlyMessages }
  | _, _ => none

/-! ## The other threads -/

/-- The read thread of a peer. Its handlers are `OnTextMessage`, which `handlerStep` runs, and
`OnBinaryMessage`, which only prints. -/
def readerThreadStep (soy : MessageBufferLib) (s : Host) (p : PeerId) (a : ReaderAct) :
    Option Host :=
  if p < s.mWebsocketServer.next then
    match readerStep soy (s.peer p) a with
    | none => none
    | some q =>
      match (s.peer p).reader, a with
      | .callHandler .text b, _ =>
        let m := soy.data .text ((s.peer p).buffers b)
        some (((s.setPeer p q).setHandler p (.record (s.peer p).mConnectionRef m)).emit
          (.textMessage p (s.peer p).mConnectionRef m))
      | .callHandler .binary _, _ => some ((s.setPeer p q).setHandler p .returned)
      | .handling _ _, .handlerReturns =>
        if s.handlers p = .returned then some ((s.setPeer p q).setHandler p .idle) else none
      | .handling _ _, .handlerThrows =>
        if s.handlers p = .threw then some ((s.setPeer p q).setHandler p .idle) else none
      | _, _ => some (s.setPeer p q)
  else none

def handlerStep (s : Host) (p : PeerId) : Option Host :=
  match s.handlers p with
  | .record c m =>
    some { (s.setHandler p (.lock c m)).emit (.recorded p c m) with mWebsocketClient := c }
  | .lock c m =>
    (s.messagesLock.lock (.reader p)).map fun l =>
      { (s.setHandler p (.pushBack c m)).emit (.acquired p c m) with messagesLock := l }
  | .pushBack c m =>
    some { (s.setHandler p .unlock).emit (.pushed p c m) with messages := s.messages ++ [m] }
  | .unlock => some { s.setHandler p .returned with messagesLock := s.messagesLock.unlock }
  | .idle | .returned | .threw => none

def pushBackThrows (s : Host) (p : PeerId) : Option Host :=
  match s.handlers p with
  | .pushBack _ _ => some (s.setHandler p .threw)
  | _ => none

def acceptStep (s : Host) : Option Host :=
  match s.accept with
  | .construct c =>
    some { s with
      mWebsocketServer := s.mWebsocketServer.newPeer c
      live := Function.update s.live s.mWebsocketServer.next true
      accept := .lockClients s.mWebsocketServer.next }
  | .lockClients p =>
    (s.mClientsLock.lock .accept).map fun l => { s with mClientsLock := l, accept := .pushBack p }
  | .pushBack p =>
    some { s with
      mWebsocketServer := s.mWebsocketServer.pushClient p, accept := .unlockClients }
  | .unlockClients => some { s with mClientsLock := s.mClientsLock.unlock, accept := .idle }
  | .idle => none

inductive Act where
  | main (a : MainAct)
  | reader (p : PeerId) (a : ReaderAct)
  | handler (p : PeerId)
  | pushBackThrows (p : PeerId)
  -- mOnConnect, called by the accept thread
  | connect (c : SoyRef)
  | accept
  -- mOnDisconnect
  | disconnect (p : PeerId)
  deriving DecidableEq

def step (soy : MessageBufferLib) (s : Host) : Act → Option Host
  | .main a => mainStep s a
  | .reader p a => readerThreadStep soy s p a
  | .handler p => handlerStep s p
  | .pushBackThrows p => pushBackThrows s p
  | .connect c =>
    match s.accept with
    | .idle => some { s with accept := .construct c }
    | _ => none
  | .accept => acceptStep s
  | .disconnect p =>
    if s.live p then
      some { s with
        mWebsocketServer := s.mWebsocketServer.removeClient (s.peer p).mConnectionRef
        live := Function.update s.live p false }
    else none

end V8Min
