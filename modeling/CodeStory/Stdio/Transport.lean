import Mathlib.Data.List.DropRight
import CodeStory.Lib.Transition

/-!
# The JSON-lines transport on stdin and stdout

`run_stdio_server` as a transition system: the main task, the blocking workers that handle
requests, and a stdin that arrives in pieces. A step of the main task is what it does between
two awaits. The future of `read_stdio_frame` is a value of its own, since `select!` drops it
when the worker's arm completes first.

`handle_stdio_message` is not modelled: a worker ends with any session and any response. So
are JSON values, of which a reader gives the texts that the transport looks at. Failures of
stdin, stdout and workers, and the time that phases take, are left out. `frames`, `stdout`
and `outcomes` are histories, and so are the numbers that work carries.
-/

set_option autoImplicit false

namespace CodeStory.Stdio

open Transition

abbrev Bytes := List UInt8

def stdioMaxFrameBytes : Nat := 1024 * 1024

def newline : UInt8 := 10

/-- A `BufReader` on stdin: what it has buffered, and what the reads to come will return. -/
structure Stdin where
  buffer : Bytes
  chunks : List Bytes
  deriving DecidableEq, Repr

/-- `fill_buf` when it is ready. An empty buffer afterwards is the end of stdin. -/
def Stdin.fillBuf (stdin : Stdin) : Stdin :=
  match stdin.buffer, stdin.chunks with
  | [], chunk :: chunks => ⟨chunk, chunks⟩
  | _, _ => stdin

def Stdin.consume (stdin : Stdin) (n : Nat) : Stdin :=
  { stdin with buffer := stdin.buffer.drop n }

inductive StdioFrame where
  | line (line : Bytes)
  | tooLarge (lineBytes : Nat)
  deriving DecidableEq, Repr

/-- Where the future of `read_stdio_frame` stands: at its own `fill_buf` with its local line,
or at that of `discard_stdio_frame_tail` with the bytes counted so far. -/
inductive ReadFuture where
  | line (line : Bytes)
  | tail (counted : Nat)
  deriving DecidableEq, Repr

/-- From one `fill_buf` to the next, or to the future's result. -/
def readStdioFrame (future : ReadFuture) (stdin : Stdin) :
    Stdin × (ReadFuture ⊕ Option StdioFrame) :=
  let stdin := stdin.fillBuf
  let available := stdin.buffer
  match future with
  | .line line =>
    if available = [] then (stdin, .inr (if line = [] then none else some (.line line)))
    else
      match available.idxOf? newline with
      | some index =>
        let bytesToNewline := index + 1
        if line.length + bytesToNewline > stdioMaxFrameBytes then
          (stdin.consume bytesToNewline, .inr (some (.tooLarge (line.length + bytesToNewline))))
        else
          (stdin.consume bytesToNewline, .inr
            (some (.line (line ++ available.take bytesToNewline))))
      | none =>
        let remaining := stdioMaxFrameBytes - line.length
        if available.length > remaining then
          (stdin.consume available.length, .inl (.tail (line.length + available.length)))
        else (stdin.consume available.length, .inl (.line (line ++ available)))
  | .tail counted =>
    if available = [] then (stdin, .inr (some (.tooLarge counted)))
    else
      match available.idxOf? newline with
      | some index => (stdin.consume (index + 1), .inr (some (.tooLarge (counted + (index + 1)))))
      | none => (stdin.consume available.length, .inl (.tail (counted + available.length)))

/-- The texts of a JSON message that the transport looks at: its `id`, its `method` when that
is a string, and its `params.requestId`. -/
structure JsonMessage where
  id : Option String
  method : Option String
  requestId : Option String
  deriving DecidableEq, Repr

abbrev JsonReader := String → Option JsonMessage

def stdioMessageIdKey (json : JsonReader) (line : String) : Option String :=
  (json line).bind (·.id)

def stdioCancellationTargetKey (json : JsonReader) (line : String) : Option String :=
  match json line with
  | none => none
  | some message =>
    if message.method = some "notifications/cancelled" then message.requestId else none

/-- `char::is_whitespace`: the Unicode property `White_Space`. -/
def isWhitespace (c : Char) : Bool :=
  let n := c.toNat
  (9 ≤ n && n ≤ 13) || n == 0x20 || n == 0x85 || n == 0xA0 || n == 0x1680 ||
    (0x2000 ≤ n && n ≤ 0x200A) || n == 0x2028 || n == 0x2029 || n == 0x202F || n == 0x205F ||
    n == 0x3000

/-- `line.trim_end_matches(['\r', '\n'])` -/
def trimLineEnd (line : String) : String :=
  String.ofList (line.toList.rdropWhile fun c => c = '\r' || c = '\n')

/-- `line.trim().is_empty()` -/
def isBlank (line : String) : Bool := line.toList.all isWhitespace

/-- What stdout gets: an answer of the transport itself, with JSON-RPC code -32700 and a null
id, or the answer to a request. -/
inductive Response (ρ : Type) where
  | parseError (line : Bytes)
  | frameTooLarge (lineBytes : Nat)
  | reply (response : ρ)
  deriving DecidableEq, Repr

structure StdioQueuedMessage where
  number : Nat
  line : String
  idKey : Option String
  cancelled : Bool
  deriving DecidableEq, Repr

inductive StdioQueuedWork (ρ : Type) where
  | message (message : StdioQueuedMessage)
  | response (number : Nat) (response : Response ρ)
  deriving DecidableEq, Repr

structure ActiveStdioRequest where
  number : Nat
  idKey : Option String
  cancelled : Bool
  deriving DecidableEq, Repr

/-- A blocking worker: it has the session until it ends. -/
structure Worker (σ ρ : Type) where
  number : Nat
  line : String
  session : σ
  result : Option (σ × Option ρ)
  deriving DecidableEq, Repr

inductive LoopPc where
  | top
  | reading (future : ReadFuture)
  | selecting (future : ReadFuture)
  | finishing
  | ended
  | panicked
  deriving DecidableEq, Repr

/-- How work was disposed of. `after` is how many frames had been delivered by then. -/
inductive Disposal (ρ : Type) where
  | answered (response : Response ρ)
  | skipped
  | handled (line : String) (response : Option ρ) (cancelled : Bool)
  deriving DecidableEq, Repr

structure Outcome (ρ : Type) where
  number : Nat
  after : Nat
  disposal : Disposal ρ
  deriving DecidableEq, Repr

structure State (σ ρ : Type) where
  stdin : Stdin
  stdinClosed : Bool
  session : Option σ
  queued : List (StdioQueuedWork ρ)
  active : Option ActiveStdioRequest
  workers : List (Worker σ ρ)
  pc : LoopPc
  frames : List StdioFrame
  stdout : List (Response ρ)
  outcomes : List (Outcome ρ)

inductive Action (σ ρ : Type) where
  | main
  | read
  | worker (number : Nat) (session : σ) (response : Option ρ)
  | join

section Frames
variable {ρ : Type}

/-- A frame as `queue_stdio_frame` sees it. -/
inductive Incoming where
  | invalid (line : Bytes)
  | tooLarge (lineBytes : Nat)
  | blank
  | cancellation (target : String)
  | message (line : String) (idKey : Option String)
  deriving DecidableEq, Repr

def classify (json : JsonReader) : StdioFrame → Incoming
  | .tooLarge lineBytes => .tooLarge lineBytes
  | .line bytes =>
    match String.fromUTF8? ⟨bytes.toArray⟩ with
    | none => .invalid bytes
    | some decoded =>
      let line := trimLineEnd decoded
      if isBlank line then .blank
      else
        match stdioCancellationTargetKey json line with
        | some target => .cancellation target
        | none => .message line (stdioMessageIdKey json line)

def StdioQueuedWork.cancel (target : String) : StdioQueuedWork ρ → StdioQueuedWork ρ
  | .message m => .message { m with cancelled := m.cancelled || m.idKey == some target }
  | .response n r => .response n r

def ActiveStdioRequest.cancel (target : String) (active : ActiveStdioRequest) :
    ActiveStdioRequest :=
  { active with cancelled := active.cancelled || active.idKey == some target }

end Frames

namespace State
variable {σ ρ : Type} (json : JsonReader) (s : State σ ρ)

def queueStdioFrame (frame : StdioFrame) : State σ ρ :=
  let number := s.frames.length
  let s := { s with frames := s.frames ++ [frame] }
  match classify json frame with
  | .invalid line =>
    { s with queued := s.queued ++ [.response number (.parseError line)] }
  | .tooLarge lineBytes =>
    { s with queued := s.queued ++ [.response number (.frameTooLarge lineBytes)] }
  | .blank => s
  | .cancellation target =>
    { s with
      active := s.active.map (·.cancel target)
      queued := s.queued.map (·.cancel target) }
  | .message line idKey =>
    { s with queued := s.queued ++ [.message ⟨number, line, idKey, false⟩] }

def goto (pc : LoopPc) : State σ ρ := { s with pc := pc }

def dispose (number : Nat) (disposal : Disposal ρ) : State σ ρ :=
  { s with outcomes := s.outcomes ++ [⟨number, s.frames.length, disposal⟩] }

def write (response : Response ρ) : State σ ρ := { s with stdout := s.stdout ++ [response] }

/-- The top of the loop, up to the next await. -/
def mainStep : State σ ρ :=
  match s.active with
  | none =>
    match s.queued with
    | .response number response :: queued =>
      ({ s with queued := queued }.write response).dispose number (.answered response)
    | .message message :: queued =>
      if message.cancelled then { s with queued := queued }.dispose message.number .skipped
      else
        match s.session with
        | none => s.goto .panicked
        | some session =>
          { s with
            queued := queued
            session := none
            active := some ⟨message.number, message.idKey, message.cancelled⟩
            workers := ⟨message.number, message.line, session, none⟩ :: s.workers }
    | [] => if s.stdinClosed then s.goto .ended else s.goto (.reading (.line []))
  | some _ => if s.stdinClosed then s.goto .finishing else s.goto (.selecting (.line []))

/-- The future's next step, on its own or in `select!`. -/
def readStep (future : ReadFuture) (waiting : ReadFuture → LoopPc) : State σ ρ :=
  match readStdioFrame future s.stdin with
  | (stdin, .inl future) => { s with stdin := stdin, pc := waiting future }
  | (stdin, .inr none) => { s with stdin := stdin, stdinClosed := true, pc := .top }
  | (stdin, .inr (some frame)) => ({ s with stdin := stdin, pc := .top }).queueStdioFrame json frame

/-- A worker that has not ended ends. -/
def workerStep (number : Nat) (session : σ) (response : Option ρ) : Option (State σ ρ) :=
  if s.workers.any fun w => w.number == number && w.result.isNone then
    some { s with
      workers := s.workers.map fun w =>
        if w.number = number then { w with result := some (session, response) } else w }
  else none

/-- The active task has ended: `finish_active_stdio_request`, and the arm of `select!`. -/
def joinStep : Option (State σ ρ) :=
  match s.active with
  | none => some (s.goto .panicked)
  | some active =>
    match s.workers.find? fun w => w.number == active.number with
    | none => none
    | some worker =>
      match worker.result with
      | none => none
      | some (session, response) =>
        let s := { s with
          active := none
          session := some session
          workers := s.workers.filter fun w => w.number != active.number
          pc := .top }
        let s :=
          match active.cancelled, response with
          | false, some response => s.write (.reply response)
          | _, _ => s
        some (s.dispose active.number (.handled worker.line response active.cancelled))

/-- `none` when the action is not enabled. -/
def step (s : State σ ρ) : Action σ ρ → Option (State σ ρ)
  | .main => if s.pc = .top then some s.mainStep else none
  | .read =>
    match s.pc with
    | .reading future => some (s.readStep json future .reading)
    | .selecting future => some (s.readStep json future .selecting)
    | _ => none
  | .worker number session response => s.workerStep number session response
  | .join =>
    match s.pc with
    | .selecting _ => s.joinStep
    | .finishing => s.joinStep
    | _ => none

/-- The server has started; its stdin will deliver these pieces. -/
def initial (session : σ) (chunks : List Bytes) : State σ ρ where
  stdin := ⟨[], chunks⟩
  stdinClosed := false
  session := some session
  queued := []
  active := none
  workers := []
  pc := .top
  frames := []
  stdout := []
  outcomes := []

end State

end CodeStory.Stdio
