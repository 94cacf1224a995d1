import PathStore.Path.Parser
import PathStore.Text.Quoted

/-!
# Faults

A fault says why an operation ended without an answer.  `message` gives its wording.  Three of the
causes are storage errors, which carry the path that was asked for and, where there is one, the part
of it that was gone through; `storageError?` gives that report.
-/

namespace PathStore

inductive Fault where
  /-- The key of a read or write is not a text, or is blank; `shown` is its text. -/
  | blankKey (shown : Text)
  /-- The key has no segment. -/
  | noSegments (key : Text)
  /-- A read goes on below `gap`, where nothing is. -/
  | keyNotFound (path gap : Path)
  /-- A write goes on to `next` below `obstacle`, where a value is that cannot hold it. -/
  | rawValue (path obstacle : Path) (next : Segment)
  /-- A segment was to be assigned on a value that has no such slot. -/
  | notAssignable (segment : Segment) (kind : String)
  | indexOutOfRange
  | assignmentOutOfRange
  | popOutOfRange
  | popFromEmpty
  /-- A position is too far below zero to be counted from the end of a list. -/
  | indexUnderflow
  /-- The position of an item to take out is too far below zero to be counted. -/
  | popUnderflow
  /-- A position is written with more digits than are read. -/
  | tooManyDigits (count : Nat)
  /-- An integer has more digits than are written. -/
  | unwritable
  /-- A list would have to grow by more items than can be counted. -/
  | lengthOverflow
  /-- A list would have to grow by more items than fit in memory. -/
  | outOfMemory
  /-- A value that can change was used as the key of a mapping. -/
  | notAKey (kind : String)
  /-- A truth value was used as a key of a view. -/
  | boolKey
  /-- The items of a value were to be counted that has none. -/
  | noLength (kind : String)
  /-- A value was to be searched that has no items. -/
  | notSearchable (kind : String)
  /-- A text was to be searched for something other than a text. -/
  | notText (kind : String)
  /-- A byte string was to be searched for something other than a byte or a byte string. -/
  | notBytes (kind : String)
  /-- A byte string was to be searched for an integer that is no byte. -/
  | notByte
  /-- A value was asked for something that its kind does not have. -/
  | noAttribute (kind name : String)
  /-- A value was to be called that cannot be. -/
  | notCallable (kind : String)
  /-- A value that cannot be copied was to be. -/
  | notCopyable
  /-- Containers stand inside one another deeper than can be followed. -/
  | tooDeep
  /-- Nothing is kept under a name. -/
  | unbound (name : Text)
  | unknownService (key : Text)
  /-- The shared storage was asked for before it was provided. -/
  | notProvided
  /-- Code supplied by a caller gave up. -/
  | failure (message : Text)
  deriving DecidableEq, Repr, Inhabited

/-! ## Storage errors -/

/-- The classes that storage errors belong to, their own and the general ones. -/
inductive ErrorClass where
  | storage
  | keyFormat
  | keyNotFound
  | rawValue
  | value
  | key
  | lookup
  | type
  | runtime
  deriving DecidableEq, Repr

namespace ErrorClass

/-- A class and all classes that it is a part of. -/
def lineage : ErrorClass → List ErrorClass
  | keyFormat => [keyFormat, storage, value]
  | keyNotFound => [keyNotFound, storage, key, lookup]
  | rawValue => [rawValue, storage, type]
  | key => [key, lookup]
  | c => [c]

/-- Whether errors of class `c` are errors of class `d`. -/
def isA (c d : ErrorClass) : Bool :=
  c.lineage.contains d

end ErrorClass

/-- What a storage error reports. -/
structure StorageError where
  kind : ErrorClass
  message : Text
  path : Text
  /-- The part of the path up to the place where it could not go on. -/
  reached : Option Text
  deriving DecidableEq, Repr

namespace Fault

def message : Fault → Text
  | blankKey _ => "Key must be a non-empty string."
  | noSegments key => "Key " ++ Text.quote key ++ " does not address any value."
  | keyNotFound _ gap => gap.spelling ++ " is not defined."
  | rawValue _ obstacle next =>
    obstacle.spelling ++ " contains raw value, " ++ next.bracketed ++ " can't be assigned to it."
  | notAssignable segment kind => "Cannot assign " ++ segment.bracketed ++ " on a " ++ kind
  | indexOutOfRange => "list index out of range"
  | assignmentOutOfRange => "list assignment index out of range"
  | popOutOfRange => "pop index out of range"
  | popFromEmpty => "pop from empty list"
  | indexUnderflow => "cannot fit 'int' into an index-sized integer"
  | popUnderflow => "Python int too large to convert to C ssize_t"
  | tooManyDigits count => (Text.TooManyDigits.mk count).message
  | unwritable => Text.digitLimitMessage []
  | lengthOverflow => "cannot fit 'int' into an index-sized integer"
  | outOfMemory => ""
  | tooDeep => ""
  | notAKey kind => "unhashable type: '" ++ kind ++ "'"
  | boolKey => "bool is not a valid storage key"
  | noLength kind => "object of type '" ++ kind ++ "' has no len()"
  | notSearchable kind => "argument of type '" ++ kind ++ "' is not iterable"
  | notText kind => "'in <string>' requires string as left operand, not " ++ kind
  | notBytes kind => "a bytes-like object is required, not '" ++ kind ++ "'"
  | notByte => "byte must be in range(0, 256)"
  | noAttribute kind name => "'" ++ kind ++ "' object has no attribute '" ++ name ++ "'"
  | notCallable kind => "'" ++ kind ++ "' object is not callable"
  | notCopyable => "cannot pickle '_thread.RLock' object"
  | unbound name => name
  | unknownService key => "No service registered for key '" ++ key ++ "'"
  | notProvided =>
    "use_global_storage requires provide_global_storage to be called on the container first"
  | failure message => message

/-- The report of the faults that are storage errors. -/
def storageError? (f : Fault) : Option StorageError :=
  match f with
  | blankKey shown => some ⟨.keyFormat, f.message, shown, none⟩
  | noSegments key => some ⟨.keyFormat, f.message, key, none⟩
  | keyNotFound path gap => some ⟨.keyNotFound, f.message, path.spelling, some gap.spelling⟩
  | rawValue path obstacle _ => some ⟨.rawValue, f.message, path.spelling, some obstacle.spelling⟩
  | _ => none

end Fault

/-- An outcome that goes on to a result has a result to go on from. -/
theorem bind_eq_ok {α β ε : Type} {e : Except ε α} {f : α → Except ε β} {b : β} :
    e >>= f = .ok b ↔ ∃ a, e = .ok a ∧ f a = .ok b := by
  cases e with
  | error x =>
    constructor
    · intro h
      cases h
    · rintro ⟨a, h, -⟩
      cases h
  | ok a =>
    constructor
    · exact fun h => ⟨a, rfl, h⟩
    · rintro ⟨a', h, h'⟩
      cases h
      exact h'

/-- A written path, or the fault of a run of too many digits in it. -/
def Path.read (s : Text) : Except Fault Path :=
  (Path.parse s).mapError fun e => .tooManyDigits e.count

end PathStore
