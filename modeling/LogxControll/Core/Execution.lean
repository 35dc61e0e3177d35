/-
  Driving wires and executing gates: the wire handlers (`core/facet.c`, `prell.c`), the execution
  behaviors (`core/lxc.c`, `core/lxc_execution.c`) and the execute functions of the bool gates
  (`lxc_bool_gates.c`), the sorter boxes (`computerphile_sort.c`) and the functional wrapper
  (`functional_wrapper.c`).

  Driving a wire executes gates, which drive wires. The functions below take the call of an
  execution behavior as the argument `call`; `callBehavior` closes the recursion, its argument
  bounding the depth of the calls and the length of the loop breaker's loop.

  The debug hooks of wires, which `Execution/HookEvents.lean` adds, only observe; the reference
  counts are those of `Core/References.lean`.
-/
import LogxControll.Core.Wiring

namespace LogxControll

/-! ## Tokens -/

/-- `lxc_get_token_value` of a tokenport that is not NULL. -/
def lxcGetTokenValue (W : World) (p : TokenportId) : Option (Option LxcValue) := do
  let tp ← W.tokenports p
  let wire ← W.wires tp.owner
  match wire.handler with
  | .directPropagateValue => return wire.currentValue
  | .nonhazardPropagateValue => return tp.currentValue

/-- `lxc_wire_token_available`; NULL is accepted. -/
def lxcWireTokenAvailable (W : World) (tp : Option TokenportId) : Option Bool :=
  match tp with
  | none => some false
  | some p => (lxcGetTokenValue W p).map Option.isSome

/-- `lxc_absorb_token`: nothing on direct wires, the token is taken on nonhazard wires. -/
def lxcAbsorbToken (p : TokenportId) (W : World) : Option World := do
  let tp ← W.tokenports p
  let wire ← W.wires tp.owner
  match wire.handler with
  | .directPropagateValue => return W
  | .nonhazardPropagateValue => return W.setTokenport p { tp with currentValue := none }

/-- `lxc_wire_release_token`: nothing on both kinds of wires; NULL is accepted. -/
def lxcWireReleaseToken (tp : Option TokenportId) (W : World) : Option World :=
  match tp with
  | none => some W
  | some p => do
    let tp ← W.tokenports p
    let _ ← W.wires tp.owner
    return W

/-! ## Driving a wire -/

/-- Call the execution behavior of the port's gate, if it is enabled and has one. -/
def notifyGate (call : ExecCall → World → Option World) (signal : Signal) (subtype : Int)
    (value : LxcValue) (p : TokenportId) (W : World) : Option World := do
  let tp ← W.tokenports p
  let gate ← W.gates tp.gate
  if gate.enabled ∧ gate.executionBehavior.isSome then
    call { gate := tp.gate, type := signal, subtype := subtype, value := value,
           index := tp.index } W
  else
    return W

/-- The loop over the driven ports, each given the value by `deliver` and its gate notified. -/
def notifyPorts (call : ExecCall → World → Option World)
    (deliver : TokenportId → World → Option World) (signal : Signal) (subtype : Int)
    (value : LxcValue) : NtArray TokenportId → World → Option World
  | [], W => some W
  | none :: _, W => some W
  | some p :: ports, W => do
    let W ← deliver p W
    let W ← notifyGate call signal subtype value p W
    notifyPorts call deliver signal subtype value ports W

/-- `wire_direct_propagate_wire_new_value`: the wire keeps the value, the ports are notified. -/
def wireDirectPropagateWireNewValue (call : ExecCall → World → Option World) (w : WireId)
    (value : LxcValue) (W : World) : Option World := do
  let wire ← W.wires w
  notifyPorts call (fun _ W => some W) wire.type wire.subtype value wire.drivens
    (W.setWire w { wire with currentValue := value })

/-- `lxc_import_new_value` into the token of a port. -/
def importToken (value : LxcValue) (p : TokenportId) (W : World) : Option World := do
  let tp ← W.tokenports p
  return W.setTokenport p { tp with currentValue := value }

/-- `wire_nonhazard_propagate_wire_new_value`: a token for each port, nothing on the wire. -/
def wireNonhazardPropagateWireNewValue (call : ExecCall → World → Option World) (w : WireId)
    (value : LxcValue) (W : World) : Option World := do
  let wire ← W.wires w
  notifyPorts call (importToken value) wire.type wire.subtype value wire.drivens W

/-- `write_new_value` of the wire's handler. -/
def writeNewValue (call : ExecCall → World → Option World) (w : WireId) (value : LxcValue)
    (W : World) : Option World := do
  let wire ← W.wires w
  match wire.handler with
  | .directPropagateValue => wireDirectPropagateWireNewValue call w value W
  | .nonhazardPropagateValue => wireNonhazardPropagateWireNewValue call w value W

/-- The driving gate and its value are noted in `driven`. -/
def World.note (W : World) (instance_ : Option GateId) (value : LxcValue) : World :=
  match instance_ with
  | none => W
  | some g => { W with driven := W.driven ++ [(g, value)] }

/-- `lxc_drive_wire_value`. A NULL wire or value does nothing. -/
def lxcDriveWireValue (call : ExecCall → World → Option World) (instance_ : Option GateId)
    (w : Option WireId) (value : Option LxcValue) (W : World) : Option World :=
  match w, value with
  | some w, some value => writeNewValue call w value (W.note instance_ value)
  | _, _ => some W

/-! ## Bool gates -/

/-- What `*((bool*) lxc_get_value(val))` reads. -/
def Data.asBool : Data → Option Bool
  | .bool b => some b
  | _ => none

/-- The loop `while(++i < 21)` from 0, which passes over the first input: is there a token at
    every wired port? -/
def allAvailable (W : World) : List (Option TokenportId) → Option Bool
  | [] => some true
  | none :: inputs => allAvailable W inputs
  | some p :: inputs => do
    let available ← lxcWireTokenAvailable W (some p)
    if available then allAvailable W inputs else return false

/-- The values of the wired ports, `none` when one has no value. -/
def copyValues (W : World) : List (Option TokenportId) → Option (Option (List (TokenportId × Bool)))
  | [] => some (some [])
  | none :: inputs => copyValues W inputs
  | some p :: inputs => do
    match ← lxcGetTokenValue W p with
    | none => return none
    | some val =>
      let b ← val.data.asBool
      let rest ← copyValues W inputs
      return rest.map ((p, b) :: ·)

/-- The loop that absorbs a token from each port. -/
def absorbTokens : List TokenportId → World → Option World
  | [], W => some W
  | p :: ports, W => do
    let W ← lxcAbsorbToken p W
    absorbTokens ports W

/-- The values of the wired inputs, whose tokens are absorbed; `none` when one is missing. The
    tokens released then are untouched by `release_token`. -/
def isAllInputValidAndCopy (inputs : List (Option TokenportId)) (W : World) :
    Option (Option (List Bool) × World) := do
  let available ← allAvailable W inputs.tail
  if available then
    match ← copyValues W inputs with
    | none => return (none, W)
    | some values =>
      let W ← absorbTokens (values.map Prod.fst) W
      return (some (values.map Prod.snd), W)
  else
    return (none, W)

/-- Whether neighbours differ, as the loop of `logic_function_xor` decides it. -/
def noEqualNeighbours : List Bool → Bool
  | a :: b :: rest => if b = a then false else noEqualNeighbours (b :: rest)
  | _ => true

/-- What the logic functions compute of the copied values; no result for NULL. `and` is the text
    of `nor`, and `dbg` looks at no value. -/
def LogicFunction.eval : LogicFunction → List Bool → Option Bool
  | .nand, values => if values = [] then none else some (values.any (! ·))
  | .nor, values => if values = [] then none else some (! values.any id)
  | .and, values => if values = [] then none else some (! values.any id)
  | .or, values => if values = [] then none else some (values.any id)
  | .not, values => values.head?.map (! ·)
  | .xor, values => if values.length ≤ 1 then none else some (noEqualNeighbours values)
  | .dbg, _ => some false

/-- The reads of `logic_function_dbg`, which absorbs nothing. -/
def readTokens (W : World) : List (Option TokenportId) → Option Unit
  | [] => some ()
  | none :: inputs => readTokens W inputs
  | some p :: inputs => do
    let _ ← lxcGetTokenValue W p
    readTokens W inputs

/-- `behavior->logic_function(instance)` -/
def LogicFunction.call (f : LogicFunction) (inputs : List (Option TokenportId)) (W : World) :
    Option (Option Bool × World) :=
  match f with
  | .dbg => do
    readTokens W inputs
    return (f.eval [], W)
  | _ => do
    let (values, W) ← isAllInputValidAndCopy inputs W
    return (values.bind f.eval, W)

/-- The registered constant for a truth value. -/
def lxcBoolConstant (b : Bool) : LxcValue :=
  if b then lxcBoolConstantValueTrue else lxcBoolConstantValueFalse

/-- `logx_bool_execute`: the first output is driven with what the logic function gives, if it gives
    something. -/
def logxBoolExecute (call : ExecCall → World → Option World) (f : LogicFunction)
    (instance_ : GateId) (W : World) : Option World := do
  let gate ← W.gates instance_
  let out ← gate.output.slots[0]?
  let (re, W) ← f.call gate.input.slots W
  match re with
  | none => return W
  | some b => lxcDriveWireValue call instance_ out (lxcBoolConstant b) W

/-! ## Sorter boxes -/

/-- `array_fix_try_get` -/
def arrayFixTryGet (arr : List (Option Nat)) (length index : Nat) : Option (Option Nat) :=
  if length ≤ index then some none else arr[index]?

/-- What `*(int*) lxc_get_value(val)` reads. -/
def Data.asInt : Data → Option Int
  | .int i => some i
  | _ => none

/-- `lxc_get_token_value`; NULL is accepted. -/
def tokenValue? (W : World) : Option TokenportId → Option (Option LxcValue)
  | none => some none
  | some p => lxcGetTokenValue W p

/-- The values that go down and right. -/
def compareValues : Option LxcValue → Option LxcValue →
    Option (Option LxcValue × Option LxcValue)
  | some a, some b => do
    let va ← a.data.asInt
    let vb ← b.data.asInt
    if va < vb then return (some a, some b) else return (some b, some a)
  | some a, none => some (some a, none)
  | none, b => some (b, none)

/-- A token is absorbed where one was read. -/
def absorbIf (value : Option LxcValue) (port : Option TokenportId) (W : World) : Option World :=
  match value, port with
  | some _, some p => lxcAbsorbToken p W
  | some _, none => none
  | none, _ => some W

/-- The common text of the three sorter boxes, after the ports are fetched. The output wires are
    fetched by `outputs` from the gate. -/
def sorterExec (call : ExecCall → World → Option World) (instance_ : GateId)
    (up left : Option TokenportId) (outputs : Gate → Option (Option WireId × Option WireId))
    (W : World) : Option World := do
  let upAvailable ← lxcWireTokenAvailable W up
  let leftAvailable ← lxcWireTokenAvailable W left
  if ¬ upAvailable ∧ ¬ leftAvailable then
    return W
  else
    let a ← tokenValue? W up
    let b ← tokenValue? W left
    if (up.isSome ∧ a.isNone) ∨ (left.isSome ∧ b.isNone) then
      let W ← lxcWireReleaseToken up W
      lxcWireReleaseToken left W
    else
      let W ← absorbIf a up W
      let W ← absorbIf b left W
      let (goDown, goRight) ← compareValues a b
      let gate ← W.gates instance_
      let (down, right) ← outputs gate
      let W ← lxcDriveWireValue call instance_ down goDown W
      let W ← lxcDriveWireValue call instance_ right goRight W
      let W ← lxcWireReleaseToken up W
      lxcWireReleaseToken left W

/-- The two ports or wires of one side, with the length that the box passes for the array. -/
def twoSlots (side : PortSide) (length : Nat) : Option (Option Nat × Option Nat) := do
  let first ← arrayFixTryGet side.slots length 0
  let second ← arrayFixTryGet side.slots length 1
  return (first, second)

/-- `porti_sorter_exec`: the arrays are as long as the instance says. -/
def portiSorterExec (call : ExecCall → World → Option World) (instance_ : GateId) (W : World) :
    Option World := do
  let g ← W.gates instance_
  let (up, left) ← twoSlots g.input g.input.slots.length
  sorterExec call instance_ up left (fun g => twoSlots g.output g.output.slots.length) W

/-- `portb_sorter_exec`: two ports each are taken for granted. -/
def portbSorterExec (call : ExecCall → World → Option World) (instance_ : GateId) (W : World) :
    Option World := do
  let g ← W.gates instance_
  let (up, left) ← twoSlots g.input 2
  sorterExec call instance_ up left (fun g => twoSlots g.output 2) W

/-- `spec_sorter_exec`: the instance has two of each. -/
def specSorterExec (call : ExecCall → World → Option World) (instance_ : GateId) (W : World) :
    Option World := do
  let g ← W.gates instance_
  let (up, left) ← twoSlots g.input 2
  sorterExec call instance_ up left (fun g => twoSlots g.output 2) W

/-! ## The functional wrapper -/

/-- What one execution of a wrapped function does itself, in order. -/
inductive FunctionalAction where
  | release (p : TokenportId)
  | absorb (p : TokenportId)
  | call (param : List DataAddress)
  | drive (w : WireId) (value : LxcValue)
  | unreference (value : LxcValue)
  deriving DecidableEq, Repr

/-- The inputs that were read, and whether none was missing. -/
def readInputs (W : World) :
    List (Option TokenportId) → Option (List (TokenportId × LxcValue) × Bool)
  | [] => some ([], true)
  | none :: _ => some ([], false)
  | some p :: inputs => do
    match ← lxcGetTokenValue W p with
    | none => return ([], false)
    | some v =>
      let (rest, complete) ← readInputs W inputs
      return ((p, v) :: rest, complete)

/-- `lxc_get_value`: the data inside the object. -/
def lxcGetValue (v : LxcValue) : DataAddress := { object := v.id, data := v.data }

/-- Drive wire `o` with `v` when it is wired and has the type of the value. -/
def driveOutput (call : ExecCall → World → Option World) (instance_ : GateId)
    (o : Option WireId) (v : LxcValue) (W : World) : Option (List FunctionalAction × World) :=
  match o with
  | none => some ([], W)
  | some w => do
    let wire ← W.wires w
    if wire.type = v.type ∧ wire.subtype = v.subtypeInfo then
      let W ← lxcDriveWireValue call instance_ w v W
      return ([.drive w v], W)
    else
      return ([], W)

/-- The loop that writes out: outputs `i, …, i + n - 1`. -/
def writeOut (call : ExecCall → World → Option World) (instance_ : GateId)
    (out : List (Option LxcValue)) : Nat → Nat → World → Option (List FunctionalAction × World)
  | 0, _, W => some ([], W)
  | n + 1, i, W => do
    let g ← W.gates instance_
    let o ← g.output.slots[i]?
    match out.getD i none with
    | none => writeOut call instance_ out n (i + 1) W
    | some v =>
      let (acts, W) ← driveOutput call instance_ o v W
      let (more, W) ← writeOut call instance_ out n (i + 1) W
      return (acts ++ .unreference v :: more, W)

/-- The actions of the execution, and the memory after it. The array `out` is zeroed before the
    call, and reads as NULL where the function stores nothing. -/
def functionalGateExecute (call : ExecCall → World → Option World)
    (function : List DataAddress → Nat → List (Option LxcValue) × Nat) (instance_ : GateId)
    (W : World) : Option (List FunctionalAction × World) := do
  let g ← W.gates instance_
  let ins := g.input.manager.maxSize.toNat
  if g.input.slots.length < ins then
    none
  else
    let (ports, complete) ← readInputs W (g.input.slots.take ins)
    if complete then
      let W ← absorbTokens (ports.map Prod.fst) W
      let param := ports.map fun pv => lxcGetValue pv.2
      let (out, next) := function param W.nextValue
      let (acts, W) ← writeOut call instance_ out g.output.manager.maxSize.toNat 0
        { W with nextValue := next }
      return (ports.map (fun pv => .absorb pv.1) ++ .call param :: acts, W)
    else
      return (ports.map (fun pv => .release pv.1), W)

/-! ## Execution behaviors -/

/-- `behavior->execute` -/
def Execute.run (call : ExecCall → World → Option World) (instance_ : GateId) (W : World) :
    Execute → Option World
  | .bool f => logxBoolExecute call f instance_ W
  | .portiSorter => portiSorterExec call instance_ W
  | .portbSorter => portbSorterExec call instance_ W
  | .specSorter => specSorterExec call instance_ W
  | .functional function => (functionalGateExecute call function instance_ W).map Prod.snd
  | .other => some W

/-- `lxc_execution_default_behavior`; no execute function looks at the type, value and index of
    the call. -/
def lxcExecutionDefaultBehavior (call : ExecCall → World → Option World) (c : ExecCall)
    (W : World) : Option World := do
  let gate ← W.gates c.gate
  gate.execute.run call c.gate W

/-- `lxc_do_execute` for a gate that is not NULL. -/
def lxcDoExecute (call : ExecCall → World → Option World) (t : QeTask) (W : World) :
    Option World := do
  let gate ← W.gates t.instance_
  if gate.enabled then
    gate.execute.run call t.instance_ W
  else
    return W

/-- The loop of `lxc_execution_loopbreaker`, for at most `n` tasks. -/
def drain (call : ExecCall → World → Option World) : Nat → QeTask → World → Option World
  | 0, _, _ => none
  | n + 1, t, W => do
    let W ← lxcDoExecute call t W
    match W.loopBreaker with
    | none => none
    | some [] => return { W with loopBreaker := none }
    | some (t' :: queue) => drain call n t' { W with loopBreaker := some queue }

/-- `lxc_execution_loopbreaker`: the outermost call drains the queue, a call within it only
    appends. -/
def lxcExecutionLoopbreaker (call : ExecCall → World → Option World) (n : Nat) (c : ExecCall)
    (W : World) : Option World :=
  let task := { instance_ := c.gate, value := c.value, index := c.index }
  match W.loopBreaker with
  | none => drain call n task { W with loopBreaker := some [] }
  | some queue => some { W with loopBreaker := some (queue ++ [task]) }

/-- The call `g->execution_behavior(...)`. -/
def callBehavior : Nat → ExecCall → World → Option World
  | 0, _, _ => none
  | n + 1, c, W => do
    let gate ← W.gates c.gate
    match gate.executionBehavior with
    | none => none
    | some .default => lxcExecutionDefaultBehavior (callBehavior n) c W
    | some .loopbreaker => lxcExecutionLoopbreaker (callBehavior n) n c W

end LogxControll
