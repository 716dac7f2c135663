import Gempba.Library.CountedReferences
import Gempba.Library.SafeSteps
import Gempba.LoadBalancing.NodeCore

/-!
# The custody of user data in the C interface

A function that creates a node or a serial runnable takes the user data of its
caller, with a hook that releases it. The data live in a holder that every copy
of the callback shares. A step is a call up to its return, a reference that the
returning thread gives up, or what the engine does with its references: it
copies them, drops them, and calls back. Handles are numbered by the calls that
made them. The load balancer is not null, and a parent is a node that has not
been destroyed.
-/

namespace Gempba.Cabi

set_option autoImplicit false

open Transition

abbrev CallId := ℕ

inductive Status where
  | OK | ERR_INVALID_ARG | ERR_OUT_OF_MEMORY | ERR_RUNTIME | ERR_UNKNOWN
  deriving DecidableEq, Repr

/-- What a C++ statement throws. -/
inductive Thrown where
  | badAlloc
  | invalidArgument (what : String)
  | exception (what : String)
  | unknown
  deriving DecidableEq, Repr

/-- `GEMPBA_CATCH_RETURN_STATUS` -/
def Thrown.status : Thrown → Status
  | badAlloc => .ERR_OUT_OF_MEMORY
  | invalidArgument _ => .ERR_INVALID_ARG
  | exception _ => .ERR_RUNTIME
  | unknown => .ERR_UNKNOWN

def Thrown.message : Thrown → String
  | badAlloc => "std::bad_alloc"
  | invalidArgument what => what
  | exception what => what
  | unknown => "unknown C++ exception"

inductive Object where
  | holder (c : CallId)
  | core (c : CallId)
  | serial (c : CallId)
  deriving DecidableEq, Repr

def Object.call : Object → ℕ
  | holder c | core c | serial c => c

def Object.isHolder : Object → Bool
  | holder _ => true
  | core _ | serial _ => false

/-- The local variables of a thread, the wrapper behind a handle, and the load balancer with its
pool and the schedulers. -/
inductive Outside where
  | thread (t : ThreadId)
  | wrapper (c : CallId)
  | engine
  deriving DecidableEq, Repr

abbrev Memory := Counted.Store Outside Object

/-- Who copies references in the engine. -/
def enginePart : Option CallId → Counted.Owner Outside Object
  | none => .outside .engine
  | some c => .object (.core c)

/-- A function that takes user data. -/
structure Factory where
  takesParent : Bool
  takesLazyArgs : Bool
  makesSerial : Bool
  message : String

def createSeedNode : Factory where
  takesParent := false
  takesLazyArgs := false
  makesSerial := false
  message := "out or runnable is null"

def mtCreateExplicitNode : Factory where
  takesParent := true
  takesLazyArgs := false
  makesSerial := false
  message := "out, runnable, or parent is null"

def mtCreateLazyNode : Factory where
  takesParent := true
  takesLazyArgs := true
  makesSerial := false
  message := "out, runnable, lazy_args, or parent is null"

def mpCreateExplicitNode : Factory where
  takesParent := true
  takesLazyArgs := false
  makesSerial := false
  message := "out, runnable, or parent is null"

def serialRunnableCreate : Factory where
  takesParent := false
  takesLazyArgs := false
  makesSerial := true
  message := "out or runnable is null"

inductive Entry where
  | createSeedNode | mtCreateExplicitNode | mtCreateLazyNode | mpCreateExplicitNode
  | serialRunnableCreate
  deriving DecidableEq, Repr

def Entry.factory : Entry → Factory
  | createSeedNode => Cabi.createSeedNode
  | mtCreateExplicitNode => Cabi.mtCreateExplicitNode
  | mtCreateLazyNode => Cabi.mtCreateLazyNode
  | mpCreateExplicitNode => Cabi.mpCreateExplicitNode
  | serialRunnableCreate => Cabi.serialRunnableCreate

/-- A stub in builds without multiprocessing. -/
def Entry.isStub (multiprocessing : Bool) : Entry → Bool
  | createSeedNode | mtCreateExplicitNode | mtCreateLazyNode => false
  | mpCreateExplicitNode | serialRunnableCreate => !multiprocessing

def MP_DISABLED_MSG : String :=
  "gempba was built without GEMPBA_MULTIPROCESSING; this entry point is unavailable"

/-- Which arguments are not null, and the parent's handle. -/
structure CreateArgs where
  userData : Bool
  releaseUserData : Bool
  out : Bool
  runnable : Bool
  lazyArgs : Bool
  parent : Option CallId
  deriving DecidableEq, Repr

def CreateArgs.hooked (a : CreateArgs) : Bool := a.releaseUserData && a.userData

def CreateArgs.anyNull (f : Factory) (a : CreateArgs) : Bool :=
  !a.out || !a.runnable || (f.takesLazyArgs && !a.lazyArgs) || (f.takesParent && a.parent.isNone)

/-- The object that the engine makes for a call. -/
def Factory.product (f : Factory) (c : CallId) : Object :=
  if f.makesSerial then .serial c else .core c

def Factory.parent (f : Factory) (a : CreateArgs) : Option CallId :=
  if f.takesParent then a.parent else none

/-- Where a call throws: at the holder or the control block of its pointer, at the wrapper, at
the closure of the callback, at the packet or the closure of the arguments, or in the engine. -/
inductive CreateFault where
  | holder
  | controlBlock
  | wrapper
  | closure
  | arguments
  | engine (e : Thrown)
  deriving DecidableEq, Repr

def engineThrow : Option CreateFault → Option Thrown
  | some (.engine e) => some e
  | none | some .holder | some .controlBlock | some .wrapper | some .closure
  | some .arguments => none

inductive Failure where
  | rejected (message : String)
  | thrown (e : Thrown)
  | disabled
  deriving DecidableEq, Repr

def Failure.status : Failure → Status
  | rejected _ => .ERR_INVALID_ARG
  | thrown e => e.status
  | disabled => .ERR_RUNTIME

def Failure.message : Failure → String
  | rejected message => message
  | thrown e => e.message
  | disabled => MP_DISABLED_MSG

inductive CallKind where
  | dummy | stub | full
  deriving DecidableEq, Repr

/-- A call that made a node or a serial runnable, or failed to. -/
structure Call where
  kind : CallKind
  hooked : Bool
  fault : Option CreateFault
  failure : Option Failure
  deriving DecidableEq, Repr

def Call.status (call : Call) : Status := (call.failure.map Failure.status).getD .OK

def Call.message (call : Call) : String := (call.failure.map Failure.message).getD ""

/-- Where a thread is: out of the interface, leaving a call, or giving up references. -/
inductive AbiPoint where
  | idle
  | leaving (c : CallId)
  | dropping
  deriving DecidableEq, Repr

structure Abi where
  multiprocessing : Bool
  memory : Memory
  point : ThreadId → AbiPoint
  lastError : ThreadId → String
  calls : List Call
  /-- The calls whose hook has run, in the order of the runs. -/
  released : List CallId

inductive AbiFault where
  | usedAfterRelease
  deriving DecidableEq, Repr

inductive AbiEvent where
  | createDummyNode (t : ThreadId) (out : Bool) (fault : Option Thrown)
  | create (t : ThreadId) (entry : Entry) (a : CreateArgs) (fault : Option CreateFault)
  | nodeDestroy (t : ThreadId) (c : CallId)
  | serialRunnableDestroy (t : ThreadId) (c : CallId)
  | fallible (t : ThreadId) (e : Option Thrown)
  | drop (t : ThreadId) (x : Object)
  | leave (t : ThreadId)
  | copy (o : Counted.Owner Outside Object) (part : Option CallId) (x : Object)
  | letGo (t : ThreadId) (part : Option CallId) (x : Object)
  | invoke (o : Counted.Owner Outside Object) (x : Object)

namespace Abi

abbrev Step := Outcome AbiFault Abi

def setMemory (m : Memory) (s : Abi) : Abi := { s with memory := m }

def setPoint (t : ThreadId) (p : AbiPoint) (s : Abi) : Abi :=
  { s with point := Function.update s.point t p }

def setLastError (t : ThreadId) (message : String) (s : Abi) : Abi :=
  { s with lastError := Function.update s.lastError t message }

def release (hooked : Bool) (c : CallId) (s : Abi) : Abi :=
  if hooked then { s with released := s.released ++ [c] } else s

@[simp] theorem calls_release (hooked : Bool) (c : CallId) (s : Abi) :
    (s.release hooked c).calls = s.calls := by
  cases hooked <;> rfl

@[simp] theorem point_release (hooked : Bool) (c : CallId) (s : Abi) :
    (s.release hooked c).point = s.point := by
  cases hooked <;> rfl

@[simp] theorem lastError_release (hooked : Bool) (c : CallId) (s : Abi) :
    (s.release hooked c).lastError = s.lastError := by
  cases hooked <;> rfl

@[simp] theorem memory_release (hooked : Bool) (c : CallId) (s : Abi) :
    (s.release hooked c).memory = s.memory := by
  cases hooked <;> rfl

def finish (t : ThreadId) (call : Call) (s : Abi) : Abi :=
  let c := s.calls.length
  ({ s with calls := s.calls ++ [call] }.setLastError t call.message).setPoint t (.leaving c)

def createDummyNode (t : ThreadId) (out : Bool) (fault : Option Thrown) (s : Abi) : Abi :=
  let c := s.calls.length
  if out = false then s.finish t ⟨.dummy, false, none, some (.rejected "out is null")⟩
  else
    match fault with
    | some e => s.finish t ⟨.dummy, false, none, some (.thrown e)⟩
    | none =>
      (s.setMemory (s.memory.make (.wrapper c) (.core c))).finish t ⟨.dummy, false, none, none⟩

def makeHolder (t : ThreadId) (c : CallId) (m : Memory) : Memory := m.make (.thread t) (.holder c)

def makeCppRunnable (t : ThreadId) (c : CallId) (m : Memory) : Memory :=
  m.share (.outside (.thread t)) (.holder c)

def makeCppLazyArgs (f : Factory) (t : ThreadId) (c : CallId) (m : Memory) : Memory :=
  if f.takesLazyArgs then m.share (.outside (.thread t)) (.holder c) else m

/-- The engine's object of a call. The callbacks are copied into it. -/
def makeProduct (f : Factory) (c : CallId) (m : Memory) : Memory :=
  let x := f.product c
  let m := (m.make (.wrapper c) x).share (.object x) (.holder c)
  if f.takesLazyArgs then m.share (.object x) (.holder c) else m

/-- A node and its parent refer to each other. -/
def hang (x : Object) (parent : Option CallId) (m : Memory) : Memory :=
  match parent with
  | some p => (m.share (.object x) (.core p)).share (.object (.core p)) x
  | none => m

def build (f : Factory) (a : CreateArgs) (c : CallId) (m : Memory) : Memory :=
  hang (f.product c) (f.parent a) (makeProduct f c m)

/-- The body of the functions that take user data. -/
def createFull (t : ThreadId) (f : Factory) (a : CreateArgs) (fault : Option CreateFault)
    (s : Abi) : Abi :=
  let c := s.calls.length
  let call := Call.mk .full a.hooked fault
  let badAlloc := some (.thrown .badAlloc)
  if fault = some .holder then (s.release a.hooked c).finish t (call badAlloc)
  else if fault = some .controlBlock then
    -- the pointer's constructor runs the deleter before `safe_make_holder` catches
    ((s.release a.hooked c).release a.hooked c).finish t (call badAlloc)
  else
    let m := makeHolder t c s.memory
    if a.anyNull f then (s.setMemory m).finish t (call (some (.rejected f.message)))
    else if fault = some .wrapper then (s.setMemory m).finish t (call badAlloc)
    else
      let m := makeCppRunnable t c m
      if fault = some .closure then (s.setMemory m).finish t (call badAlloc)
      else
        let m := makeCppLazyArgs f t c m
        if fault = some .arguments ∧ f.makesSerial = false then
          (s.setMemory m).finish t (call badAlloc)
        else
          match engineThrow fault with
          | some e => (s.setMemory m).finish t (call (some (.thrown e)))
          | none => (s.setMemory (build f a c m)).finish t (call none)

/-- The stub of a function that takes user data. -/
def createStub (t : ThreadId) (a : CreateArgs) (s : Abi) : Abi :=
  (s.release a.hooked s.calls.length).finish t ⟨.stub, a.hooked, none, some .disabled⟩

/-- A parent that is named must not have been destroyed. -/
def ParentThere (f : Factory) (a : CreateArgs) (s : Abi) : Prop :=
  ∀ p ∈ f.parent a, (.outside (.wrapper p), .core p) ∈ s.memory.refs

instance (f : Factory) (a : CreateArgs) (s : Abi) : Decidable (s.ParentThere f a) := by
  unfold ParentThere
  infer_instance

def create (t : ThreadId) (entry : Entry) (a : CreateArgs) (fault : Option CreateFault)
    (s : Abi) : Step :=
  if s.point t = .idle then
    if entry.isStub s.multiprocessing then .moved (s.createStub t a)
    else if s.ParentThere entry.factory a then .moved (s.createFull t entry.factory a fault)
    else .blocked
  else .blocked

def destroyWrapper (t : ThreadId) (c : CallId) (x : Object) (s : Abi) : Step :=
  if s.point t = .idle ∧ (.outside (.wrapper c), x) ∈ s.memory.refs then
    .moved ((s.setMemory (s.memory.move (.outside (.wrapper c)) (.outside (.thread t)) x)).setPoint
      t .dropping)
  else .blocked

def nodeDestroy (t : ThreadId) (c : CallId) (s : Abi) : Step := s.destroyWrapper t c (.core c)

def serialRunnableDestroy (t : ThreadId) (c : CallId) (s : Abi) : Step :=
  s.destroyWrapper t c (.serial c)

/-- A function that takes no user data and may throw. -/
def fallible (t : ThreadId) (e : Option Thrown) (s : Abi) : Step :=
  if s.point t = .idle then .moved (s.setLastError t ((e.map Thrown.message).getD ""))
  else .blocked

def hooked (c : CallId) (s : Abi) : Bool := (s.calls[c]?).any (·.hooked)

/-- The reference is the last one to a holder, whose deleter then runs the hook. -/
def deletes (x : Object) (s : Abi) : Bool := x.isHolder && s.memory.count x = 1

def giveUp (t : ThreadId) (x : Object) (s : Abi) : Abi :=
  (s.setMemory (s.memory.drop (.thread t) x)).release (s.deletes x && s.hooked x.call) x.call

def drop (t : ThreadId) (x : Object) (s : Abi) : Step :=
  if (.outside (.thread t), x) ∈ s.memory.refs then .moved (s.giveUp t x) else .blocked

/-- The thread returns once it holds nothing. -/
def leave (t : ThreadId) (s : Abi) : Step :=
  if s.point t ≠ .idle ∧ ∀ ref ∈ s.memory.refs, ref.1 ≠ .outside (.thread t) then
    .moved (s.setPoint t .idle)
  else .blocked

def copy (o : Counted.Owner Outside Object) (part : Option CallId) (x : Object) (s : Abi) : Step :=
  if (o, x) ∈ s.memory.refs ∧ x.isHolder = false ∧ s.memory.Present (enginePart part) then
    .moved (s.setMemory (s.memory.share (enginePart part) x))
  else .blocked

def letGo (t : ThreadId) (part : Option CallId) (x : Object) (s : Abi) : Step :=
  if s.point t = .idle ∧ (enginePart part, x) ∈ s.memory.refs ∧ x.isHolder = false then
    .moved ((s.setMemory (s.memory.move (enginePart part) (.outside (.thread t)) x)).setPoint t
      .dropping)
  else .blocked

/-- A node or a serial runnable that someone refers to calls back with the user data. -/
def invoke (o : Counted.Owner Outside Object) (x : Object) (s : Abi) : Step :=
  if (o, x) ∈ s.memory.refs ∧ x.isHolder = false ∧
      (s.calls[x.call]?).any (·.kind = .full) = true then
    if s.memory.InMemory (.holder x.call) then .moved s else .raised .usedAfterRelease
  else .blocked

def step : AbiEvent → Abi → Step
  | .createDummyNode t out fault, s =>
    if s.point t = .idle then .moved (s.createDummyNode t out fault) else .blocked
  | .create t entry a fault, s => s.create t entry a fault
  | .nodeDestroy t c, s => s.nodeDestroy t c
  | .serialRunnableDestroy t c, s => s.serialRunnableDestroy t c
  | .fallible t e, s => s.fallible t e
  | .drop t x, s => s.drop t x
  | .leave t, s => s.leave t
  | .copy o part x, s => s.copy o part x
  | .letGo t part x, s => s.letGo t part x
  | .invoke o x, s => s.invoke o x

def start (multiprocessing : Bool) : Abi where
  multiprocessing := multiprocessing
  memory := .empty
  point _ := .idle
  lastError _ := ""
  calls := []
  released := []

end Abi

def abi : Machine Abi AbiEvent AbiFault where
  initial s := ∃ multiprocessing, s = Abi.start multiprocessing
  step := Abi.step

end Gempba.Cabi
