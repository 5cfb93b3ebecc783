import Mathlib.Tactic.Common

/-!
# C strings, memory faults and the enumerations of `dynoc-core.h`

A `CString` is the content of a NUL-terminated string. Reads go by position, and the position
of the terminator is the last one that may be read. A function whose pointer arithmetic can
leave the objects the library allocated returns in `Except Fault`, so that an access outside
them is a result of the model and not an arbitrary value.
-/

namespace DynocClient

/-- The accesses the library's pointer arithmetic can get wrong. -/
inductive Fault where
  /-- A byte after the terminator of a string. -/
  | stringRead
  /-- A word outside `mag[4]`. -/
  | magAccess
  /-- A field of a datacenter that is `NULL`. -/
  | nullDatacenter
  /-- `hash_func` before `dynoc_start` has set it. -/
  | nullHash
  /-- A rack outside `rack[0 .. rack_count - 1]`. -/
  | rackAccess
  /-- An element outside `continuum[0 .. ncontinuum - 1]`. -/
  | continuumAccess
  deriving DecidableEq, Repr

/-- The bytes of a string before its terminator. -/
structure CString where
  bytes : List UInt8
  nonzero : 0 ∉ bytes
  deriving DecidableEq

namespace CString

/-- The C string of an ASCII literal. -/
def ofAscii (text : String) : CString where
  bytes := (text.toList.map fun c => UInt8.ofNat c.toNat).filter (· ≠ 0)
  nonzero := by simp

/-- `strlen`. -/
def strlen (s : CString) : Nat := s.bytes.length

/-- The byte at a position; the terminator can be read, what follows it cannot. -/
def read (s : CString) (position : Nat) : Except Fault UInt8 :=
  match s.bytes[position]? with
  | some byte => pure byte
  | none => if position = s.strlen then pure 0 else throw .stringRead

/-- A read before the end gives the byte. -/
theorem read_of_lt {s : CString} {position : Nat} (h : position < s.bytes.length) :
    s.read position = .ok s.bytes[position] := by
  simp [read, List.getElem?_eq_getElem h, pure, Except.pure]

/-- A read at the end gives the terminating byte. -/
theorem read_terminator (s : CString) : s.read s.strlen = .ok 0 := by
  simp [read, strlen, pure, Except.pure]

end CString

/-- `dc_type_t`: `REMOTE_DC` is 0 and `LOCAL_DC` is 1. -/
inductive DcType where
  | remoteDc
  | localDc
  deriving DecidableEq, Repr

instance decidableForallDcType (P : DcType → Prop) [DecidablePred P] :
    Decidable (∀ dcType, P dcType) :=
  decidable_of_iff (P .remoteDc ∧ P .localDc)
    ⟨fun h dcType => by cases dcType; exacts [h.1, h.2], fun h => ⟨h _, h _⟩⟩

/-- The values of `redis_connection.status`: `INVALID` is 0 and `VALID` is 1. -/
inductive Status where
  | invalid
  | valid
  deriving DecidableEq, Repr

/-- A status is known by whether it is `VALID`. -/
theorem Status.eq_of_valid_iff {status other : Status} (h : status = .valid ↔ other = .valid) :
    status = other := by
  cases status <;> cases other <;> simp_all

/-- What is not `VALID` is `INVALID`. -/
@[simp] theorem Status.not_valid {status : Status} : ¬ status = .valid ↔ status = .invalid := by
  cases status <;> simp

end DynocClient
