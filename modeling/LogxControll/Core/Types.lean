/-
  `core/lxc.h`: signals, error codes, directions and values.

  A `Signal` is a pointer to a `struct lxc_signal_type` and is compared as a pointer: one
  constructor for each type the library registers itself, `registered` for the types of
  loaded libraries. The NULL signal is `none`.
-/
import Mathlib.Logic.Basic

namespace LogxControll

/-- `struct lxc_signal_type*` -/
inductive Signal where
  | system | pulse | bool | byte | short | int | float | long | double | string | data | struct
  | registered (id : Nat)
  deriving DecidableEq, Repr

/-- `enum lxc_errno`, the members the modelled functions return. -/
inductive LxcErrno where
  | success
  | entityOutOfRange
  | typeNotSupported
  | portIsInUse
  | portIsAlreadyFree
  | badCall
  | alreadyHasDriver
  | notConnectedUnwiring
  | nothingChanged
  | portDoesnotExists
  | entityAlreadyRegistered
  | entityNotFound
  | entityByNameAlreadyRegistered
  | tooManyTypes
  | typeMismatch
  deriving DecidableEq, Repr

/-- The value an enumerator has as an `int`. -/
def LxcErrno.code : LxcErrno → Int
  | success => 0
  | entityOutOfRange => -1
  | typeNotSupported => -2
  | portIsInUse => -3
  | portIsAlreadyFree => -4
  | badCall => -5
  | alreadyHasDriver => -6
  | notConnectedUnwiring => -7
  | nothingChanged => -11
  | portDoesnotExists => -12
  | entityAlreadyRegistered => -14
  | entityNotFound => -15
  | entityByNameAlreadyRegistered => -16
  | tooManyTypes => -1024
  | typeMismatch => -1030

theorem LxcErrno.code_eq_zero_iff (e : LxcErrno) : e.code = 0 ↔ e = .success := by
  cases e <;> simp [code]

/-- `LXC_GATE_MAX_IO_TYPE_COUNT` -/
def lxcGateMaxIoTypeCount : Nat := 20

/-- `DIRECTION_IN` is `true` in the source, `DIRECTION_OUT` is `false`. -/
inductive Direction where
  | input
  | output
  deriving DecidableEq, Repr

/-- What a value object stores. -/
inductive Data where
  | bool (b : Bool)
  | int (i : Int)
  | systemEvent (type : Signal) (subtype : Int) (index : Nat)
  | other (bytes : List Nat)
  deriving DecidableEq, Repr

/-- A value object: `id` is its address, the other fields are what is found there. The
    framework never modifies a value it passes on, so the contents travel with the address. -/
structure LxcValue where
  id : Nat
  type : Signal
  subtypeInfo : Int
  data : Data
  deriving DecidableEq, Repr

/-- `lxc_bool_constant_value_true.value` -/
def lxcBoolConstantValueTrue : LxcValue :=
  { id := 0, type := .bool, subtypeInfo := 0, data := .bool true }

/-- `lxc_bool_constant_value_false.value` -/
def lxcBoolConstantValueFalse : LxcValue :=
  { id := 1, type := .bool, subtypeInfo := 0, data := .bool false }

end LogxControll
