import GreenTree.Kind
import GreenTree.Fault
import GreenTree.Text.Utf8

/-!
What can go wrong with a stream. An error is the stream's fault or that of a limit and is reported;
a fault is a broken contract and ends everything.
-/

namespace GreenTree

/-- An error, or the fault of a caller. -/
inductive Failure (ε : Type) where
  | error (error : ε)
  | fault (cause : Fault)
deriving DecidableEq, Repr

inductive TransferError where
  | unexpectedEnd
  | sinkFull
deriving DecidableEq, Repr

def TransferError.message : TransferError → String
  | .unexpectedEnd => "failed to fill whole buffer"
  | .sinkFull => "failed to write whole buffer"

inductive OverlayError where
  | transfer (cause : TransferError)
  | sizeLimit
  | invalidText (cause : Utf8Error)
  /-- The byte that says whether a value is present is neither of the two known. -/
  | invalidPresence (byte : Nat)
  | wideNumber
  /-- A number begins with the byte that is kept for later. -/
  | reservedByte
  | numberTooLarge (bits value : Nat)
  | unknownSeverity (rank : Nat)
deriving DecidableEq, Repr

def OverlayError.message : OverlayError → String
  | .transfer cause => "io error: " ++ cause.message
  | .sizeLimit => "the size limit has been reached"
  | .invalidText cause => "string is not valid utf8: " ++ cause.message
  | .invalidPresence byte => "tag for enum is not valid, found " ++ toString byte
  | .wideNumber =>
    "Invalid value (u128 range): you may have a version or configuration disagreement?"
  | .reservedByte =>
    "\nByte 255 is treated as an extension point; it should not be encoding anything.\n" ++
      "Do you have a mismatched bincode version or configuration?\n"
  | .numberTooLarge bits value =>
    "Invalid u" ++ toString bits ++ " " ++ toString value ++
      ": you may have a version disagreement?"
  | .unknownSeverity rank =>
    "invalid value: integer \x60" ++ toString rank ++ "\x60, expected variant index 0 <= i < 4"

inductive WriteError where
  | transfer (cause : TransferError)
  | tooLong (length : Nat)
  | stringTooLong (length limit : Nat)
  | overlay (cause : OverlayError)
deriving DecidableEq, Repr

def WriteError.message : WriteError → String
  | .transfer cause => "I/O error: " ++ cause.message
  | .tooLong length => "length " ++ toString length ++ " does not fit in a u32 prefix"
  | .stringTooLong length limit =>
    "string of " ++ toString length ++ " bytes exceeds the limit of " ++ toString limit
  | .overlay cause => "failed to encode overlay: " ++ cause.message

inductive ReadError where
  | transfer (cause : TransferError)
  | badMagic
  | unsupportedVersion (version : Nat)
  | unknownKind (tag : Nat)
  | unregisteredKind (kind : Kind)
  | unexpectedShape (expected : String) (found : Kind)
  | invalidText (cause : Utf8Error)
  | stringTooLong (length limit : Nat)
  | danglingStringRef (index known : Nat)
  | invalidStringTag (tag : Nat)
  | invalidBool (byte : Nat)
  | tooDeep (limit : Nat)
  | widthOverflow (kind : Kind)
  | trailingBytes (count : Nat)
  | overlay (cause : OverlayError)
deriving DecidableEq, Repr

def ReadError.message : ReadError → String
  | .transfer cause => "I/O error: " ++ cause.message
  | .badMagic => "stream does not start with the green tree magic"
  | .unsupportedVersion version => "unsupported wire version " ++ toString version
  | .unknownKind tag => "unknown syntax kind tag " ++ toString tag
  | .unregisteredKind kind => "no reader registered for " ++ kind.name
  | .unexpectedShape expected found =>
    "expected a " ++ expected ++ " record, found " ++ found.name
  | .invalidText cause => "invalid UTF-8 in string: " ++ cause.message
  | .stringTooLong length limit =>
    "string of " ++ toString length ++ " bytes exceeds the limit of " ++ toString limit
  | .danglingStringRef index known =>
    "string reference " ++ toString index ++ " points past the " ++ toString known ++
      " strings read so far"
  | .invalidStringTag tag => "invalid string tag " ++ toString tag
  | .invalidBool byte => "invalid boolean byte " ++ toString byte
  | .tooDeep limit => "tree is nested deeper than " ++ toString limit ++ " records"
  | .widthOverflow kind => "width of " ++ kind.name ++ " record does not fit in a u32"
  | .trailingBytes count => toString count ++ " bytes left over after the root record"
  | .overlay cause => "failed to decode overlay: " ++ cause.message

abbrev ReadFailure := Failure ReadError

end GreenTree
