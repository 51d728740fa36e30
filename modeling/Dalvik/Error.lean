import Dalvik.Text.Numeral
import Dalvik.Text.Quoted

/-!
# Failures

An `Error` is a cause and the contexts it passed through on its way out,
innermost first. Each cause is a case of its own; `Cause.message` is the only
place that holds their wording.
-/

namespace Dalvik

/-- The broad classes of failure. -/
inductive ErrorKind where
  /-- Bytes form no valid structure, or a value does not fit where it has to go. -/
  | decode
  /-- An operation that the present state does not allow. -/
  | illegalState
  /-- No provider knows a class. -/
  | unresolvedClass
  deriving DecidableEq, Repr

/-- What went wrong. -/
inductive Cause where
  -- reading bytes
  | endOfStream (what : String) (offset : Nat)
  | seekPastEnd (offset size : Nat)
  | wordOutOfRange (offset : Nat)
  | lebOutOfRange (offset : Nat)
  | lebEnded (signed : Bool)
  | lebTooLong (signed : Bool) (limit : Nat)
  | valueSize (size offset : Nat)
  | valueTooWide (size width : Nat)
  | stringUnterminated (offset : Nat)
  | stringMalformed (offset : Nat)
  | stringLength (offset declared actual : Nat)
  -- writing bytes
  | patchBeforeBase (position base : Nat)
  | patchPastEnd (position : Nat)
  | indexTooWide (what : String) (index : Nat)
  -- lists with a count
  | insertOutOfBounds (index size : Nat)
  | countTooLarge (count remaining : Nat)
  -- the header
  | headerTooShort
  | magicUnknown
  | bigEndian
  | endianTag (tag : Nat)
  | headerSizeTooSmall (size minimum : Nat)
  | magicVersion (magic : List UInt8)
  | fileSizeTooLarge (declared available : Nat)
  -- descriptors, references and kinds
  | descriptorMalformed (text : String)
  | descriptorWithoutReturn (text : String)
  | handleKindUnknown (value : Nat)
  | handleMemberMismatch (kind : String)
  | resolveWithoutKind (index : Nat)
  | verificationBits (bits : Nat)
  | verificationKind (kind : String)
  | formatVersion (version : Nat)
  | visibilityUnknown (value : Nat)
  | restrictionsUnknown (value : Nat)
  -- encoded values
  | encodedSize (size tag offset : Nat)
  | encodedArgument (argument tag offset : Nat)
  | encodedBoolean (argument offset : Nat)
  | encodedTag (tag offset : Nat)
  | skippedTag (tag : Nat)
  -- instructions
  | nibbleRegister (register : Nat)
  | byteRegister (register : Nat)
  | registerListCount (count : Nat)
  | registerRangeCount (count : Nat)
  | registerRangeEnd (start count : Nat)
  | literalTooWide (literal : Int) (width : String)
  | branchTooFar (offset : Int) (format : String)
  | referenceTooWide (index limit : Nat)
  | formatMismatch (opcode expected actual : String)
  | nibbleLiteral (literal : Int)
  | verificationError (value : Nat)
  | literalLowBits (literal : Int) (bits : Nat)
  | tooManyTargets (count : Nat)
  | tooManyKeys (count : Nat)
  | keysUnsorted
  | elementWidth (width : Nat)
  | elementTooWide (element : Int) (width : Nat)
  | noBranch (opcode : String)
  | opcodeUnknown (value offset : Nat) (api : Int)
  | registerCount (count : Nat) (opcode : String) (offset : Nat)
  | payloadWidth (width offset : Nat)
  | payloadPastEnd (offset : Nat)
  | opcodeMissing (opcode : String) (api : Int)
  | payloadUnaligned (opcode : String) (address : Nat)
  -- images
  | indexOutOfBounds (what : String) (index count : Nat)
  | callSiteMalformed (index : Nat)
  | directoryTooLarge (offset entries : Nat)
  | memberCountsTooLarge (offset statics instances directs virtuals : Nat)
  | codePastEnd (offset : Nat)
  -- pools and assemblies
  | poolFinalized (pool : String)
  | poolAlreadyFinalized (pool : String)
  | poolNotFinalized (pool : String)
  | handleUnknown (pool : String) (id : Nat)
  | notInPool (pool key : String)
  | classDefinedTwice (descriptor : String)
  | classesAfterFinalize
  | assemblyAlreadyFinalized
  | writeBeforeFinalize
  | idSectionsEnd (position expected : Nat)
  | debugItemOrder (address current : Nat)
  | lineOrder (address current : Nat)
  | secondCatchAll
  | fieldsOutOfOrder (descriptor : String)
  | methodsOutOfOrder (descriptor : String)
  -- class paths
  | classUnresolved (descriptor : String)
  deriving DecidableEq, Repr

/-- Where a failure passed through. -/
inductive Context where
  | item (index : Nat)
  | uleb128 (offset : Nat)
  | uleb128p1 (offset : Nat)
  | sleb128 (offset : Nat)
  | arrayElement (index : Nat)
  | opcode (name : String)
  | instruction (address : Nat)
  | classNamed (descriptor : String)
  | methodNamed (text : String)
  | mapList
  | typeList (offset : Nat)
  | string (index : Nat)
  | callSite (index : Nat)
  | annotationsOf (classIndex : Nat)
  | classData (offset : Nat)
  | tryBlock (index : Nat)
  | debugInfo (offset : Nat)
  | pool (name : String)
  | debugInfoOf (descriptor : String)
  | codeOf (descriptor : String)
  deriving DecidableEq, Repr

/-- A cause with the contexts around it, innermost first. -/
structure Error where
  cause : Cause
  contexts : List Context := []
  deriving DecidableEq, Repr

namespace Cause

/-- The class that a cause belongs to. -/
def kind : Cause → ErrorKind
  | poolFinalized _ | poolAlreadyFinalized _ | poolNotFinalized _ | classDefinedTwice _
  | classesAfterFinalize | assemblyAlreadyFinalized | writeBeforeFinalize => .illegalState
  | classUnresolved _ => .unresolvedClass
  | _ => .decode

open Text

/-- The wording of each cause. -/
def message : Cause → String
  | endOfStream what offset => s!"Unexpected end of stream reading {what} at index {offset}"
  | seekPastEnd offset size => s!"Seek to offset 0x{hex offset} is past the end of a {size} byte buffer"
  | wordOutOfRange offset => s!"Encountered small uint that is out of range at offset 0x{hex offset}"
  | lebOutOfRange offset => s!"Encountered valid uleb128 that is out of range at offset 0x{hex offset}"
  | lebEnded signed => s!"Unexpected end of stream in {lebName signed} value"
  | lebTooLong signed limit =>
    s!"Invalid {lebName signed} integer: continuation bit set after {limit} bytes"
  | valueSize size offset => s!"Invalid encoded value size {size} at offset 0x{hex offset}"
  | valueTooWide size width => s!"Encoded value of {size} bytes does not fit a {width} byte value"
  | stringUnterminated offset => s!"Unterminated string data at offset 0x{hex offset}"
  | stringMalformed offset => s!"Invalid MUTF-8 string data at offset 0x{hex offset}"
  | stringLength offset declared actual =>
    s!"String at offset 0x{hex offset} declares {declared} utf-16 units but holds {actual}"
  | patchBeforeBase position base =>
    s!"Patch offset 0x{hex position} is before the writer base 0x{hex base}"
  | patchPastEnd position => s!"Patch offset 0x{hex position} is past the written data"
  | indexTooWide what index => s!"{what} index {index} does not fit in 16 bits"
  | insertOutOfBounds index size => s!"Insert index {index} is out of bounds for list of {size}"
  | countTooLarge count remaining => s!"Item count {count} cannot fit in the remaining {remaining} bytes"
  | headerTooShort => "Not enough bytes for header"
  | magicUnknown => "Invalid magic value"
  | bigEndian => "Big endian dex files are not supported"
  | endianTag tag => s!"Invalid endian tag 0x{hex tag}"
  | headerSizeTooSmall size minimum => s!"Header size 0x{hex size} is smaller than 0x{hex minimum}"
  | magicVersion magic =>
    s!"Invalid dex version in magic {bracketed (magic.map fun b => toString b.toNat)}"
  | fileSizeTooLarge declared available =>
    s!"Declared file size 0x{hex declared} exceeds the 0x{hex available} bytes available"
  | descriptorMalformed text => s!"Invalid method descriptor {text}"
  | descriptorWithoutReturn text => s!"Missing return type in method descriptor {text}"
  | handleKindUnknown value => s!"Invalid method handle type {value}"
  | handleMemberMismatch kind => s!"Method handle type {kind} does not match its member"
  | resolveWithoutKind index => s!"Cannot resolve index {index} without a reference type"
  | verificationBits bits => s!"Invalid verification reference bits {bits}"
  | verificationKind kind => s!"{kind} references cannot appear in a verification error"
  | formatVersion version => s!"Unsupported dex version {threeDigits version}"
  | visibilityUnknown value => s!"Invalid annotation visibility {value}"
  | restrictionsUnknown value => s!"Invalid hidden api flags 0x{hex value}"
  | encodedSize size tag offset =>
    s!"Invalid size {size} for encoded value type 0x{hexByte tag} at offset 0x{hex offset}"
  | encodedArgument argument tag offset =>
    s!"Invalid value_arg {argument} for encoded value type 0x{hexByte tag} at offset 0x{hex offset}"
  | encodedBoolean argument offset => s!"Invalid boolean value_arg {argument} at offset 0x{hex offset}"
  | encodedTag tag offset => s!"Unknown encoded value type 0x{hexByte tag} at offset 0x{hex offset}"
  | skippedTag tag => s!"Invalid encoded value type: 0x{hex tag}"
  | nibbleRegister register =>
    s!"Invalid register: v{register}. Must be between v0 and v15, inclusive."
  | byteRegister register =>
    s!"Invalid register: v{register}. Must be between v0 and v255, inclusive."
  | registerListCount count =>
    s!"Invalid register count: {count}. Must be between 0 and 5, inclusive."
  | registerRangeCount count =>
    s!"Invalid register count: {count}. Must be between 0 and 255, inclusive."
  | registerRangeEnd start count =>
    s!"Invalid register range starting at v{start} with {count} registers"
  | literalTooWide literal width =>
    s!"Invalid literal value: {literal}. Does not fit a {width} literal."
  | branchTooFar offset format => s!"Invalid code offset: {offset}. Does not fit a {format} offset."
  | referenceTooWide index limit => s!"Invalid reference index {index}. Must be at most 0x{hex limit}."
  | formatMismatch opcode expected actual =>
    s!"Opcode {opcode} has format {expected} but the instruction is {actual}"
  | nibbleLiteral literal =>
    s!"Invalid literal value: {literal}. Must be between -8 and 7, inclusive."
  | verificationError value =>
    s!"Invalid verification error value: {value}. Must be between 0 and 63, inclusive."
  | literalLowBits literal bits =>
    s!"Invalid literal value: {literal}. Low {bits} bits must be zeroed out."
  | tooManyTargets count => s!"Packed switch payload has {count} targets, more than 65535"
  | tooManyKeys count => s!"Sparse switch payload has {count} keys, more than 65535"
  | keysUnsorted => "Sparse switch keys must be sorted in ascending order"
  | elementWidth width => s!"Invalid element width: {width}. Must be 1, 2, 4 or 8."
  | elementTooWide element width => s!"Array payload element {element} does not fit in {width} bytes"
  | noBranch opcode => s!"{opcode} does not have a code offset"
  | opcodeUnknown value offset api =>
    s!"Unknown opcode 0x{hexByte value} at offset 0x{hex offset} for API {api}"
  | registerCount count opcode offset =>
    s!"Invalid register count {count} for {opcode} at offset 0x{hex offset}"
  | payloadWidth width offset =>
    s!"Invalid array payload element width {width} at offset 0x{hex offset}"
  | payloadPastEnd offset => s!"Array payload at offset 0x{hex offset} runs past the end of the code"
  | opcodeMissing opcode api => s!"Opcode {opcode} does not exist at API {api}"
  | payloadUnaligned opcode address => s!"{opcode} at address 0x{hex address} is not 4-byte aligned"
  | indexOutOfBounds what index count =>
    s!"{what} index out of bounds: {index}, must be less than {count}"
  | callSiteMalformed index => s!"Invalid encoded array for call site {index}"
  | directoryTooLarge offset entries =>
    s!"Annotations directory at 0x{hex offset} has {entries} entries, more than the file holds"
  | memberCountsTooLarge offset statics instances directs virtuals =>
    s!"class_data member counts overflow the file at offset 0x{hex offset} " ++
      s!"({statics}, {instances}, {directs}, {virtuals})"
  | codePastEnd offset => s!"Code item at 0x{hex offset} runs past the end of the file"
  | poolFinalized pool => s!"Cannot intern into the finalized {pool} pool"
  | poolAlreadyFinalized pool => s!"The {pool} pool is already finalized"
  | poolNotFinalized pool => s!"The {pool} pool is not finalized"
  | handleUnknown pool id => s!"Unknown {pool} handle {id}"
  | notInPool pool key => s!"{key} is not in the {pool} pool"
  | classDefinedTwice descriptor => s!"Multiple definitions for class {descriptor}"
  | classesAfterFinalize => "Cannot add classes to a finalized builder"
  | assemblyAlreadyFinalized => "The builder is already finalized"
  | writeBeforeFinalize => "The builder must be finalized before writing"
  | idSectionsEnd position expected => s!"Id sections end at 0x{hex position} instead of 0x{hex expected}"
  | debugItemOrder address current => s!"Debug item at 0x{hex address} comes after 0x{hex current}"
  | lineOrder address current => s!"Line entry at 0x{hex address} comes after 0x{hex current}"
  | secondCatchAll => "A try block can have only one catch-all handler"
  | fieldsOutOfOrder descriptor => s!"Fields of {descriptor} are not in index order"
  | methodsOutOfOrder descriptor => s!"Methods of {descriptor} are not in index order"
  | classUnresolved descriptor => s!"Could not resolve class {descriptor}"
where
  /-- The name of one form of LEB128 number. -/
  lebName (signed : Bool) : String := if signed then "sleb128" else "uleb128"

end Cause

namespace Context

open Text

/-- How a context is named in a message. -/
def text : Context → String
  | item index => s!"item {index}"
  | uleb128 offset => s!"uleb128 at offset 0x{hex offset}"
  | uleb128p1 offset => s!"uleb128p1 at offset 0x{hex offset}"
  | sleb128 offset => s!"sleb128 at offset 0x{hex offset}"
  | arrayElement index => s!"array element {index}"
  | opcode name => name
  | instruction address => s!"instruction at address 0x{hex address}"
  | classNamed descriptor => s!"class {descriptor}"
  | methodNamed text => s!"method {text}"
  | mapList => "map list"
  | typeList offset => s!"type list at 0x{hex offset}"
  | string index => s!"string {index}"
  | callSite index => s!"call site {index}"
  | annotationsOf classIndex => s!"annotations of class def {classIndex}"
  | classData offset => s!"class data at 0x{hex offset}"
  | tryBlock index => s!"try block {index}"
  | debugInfo offset => s!"debug info at 0x{hex offset}"
  | pool name => s!"{name} pool"
  | debugInfoOf descriptor => s!"debug info of {descriptor}"
  | codeOf descriptor => s!"code of {descriptor}"

end Context

namespace Error

/-- The class of a failure is that of its cause. -/
def kind (e : Error) : ErrorKind :=
  e.cause.kind

/-- The same failure seen from one level further out. -/
def within (e : Error) (context : Context) : Error :=
  { e with contexts := e.contexts ++ [context] }

/-- The cause, then each context from the innermost outwards. -/
def message (e : Error) : String :=
  match e.contexts with
  | [] => e.cause.message
  | first :: rest =>
    e.cause.message ++ " for " ++ first.text ++ String.join (rest.map fun c => " of " ++ c.text)

instance : Coe Cause Error where
  coe cause := ⟨cause, []⟩

end Error

/-- A computation that may fail. -/
abbrev Result := Except Error

/-- Fails with a cause. -/
def Result.fail {α : Type u} (cause : Cause) : Result α :=
  .error ⟨cause, []⟩

/-- Adds a context to a failure. -/
def Result.within {α : Type u} (r : Result α) (context : Context) : Result α :=
  r.mapError (·.within context)

end Dalvik
