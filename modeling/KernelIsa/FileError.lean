import KernelIsa.Artifact.Path

/-!
# FileError — the answers of the operating system

A `FileError` says why an operation on a file or a program failed; `FileError.message` is its
wording, which for an error number is that of the system's table (`systemMessage`).
-/

namespace KernelIsa

/-- Why an operation on a file or a program failed. -/
inductive FileError
  /-- The system's error number. -/
  | system (code : Int32)
  /-- The file is no UTF-8 text. -/
  | notText
  /-- A path with a zero byte cannot be handed to the system. -/
  | zeroByte
  /-- A program's argument with a zero byte cannot be handed to the system. -/
  | zeroArgument
  deriving DecidableEq, Repr

namespace FileError

/-- Nothing lies at the path. -/
def missing : FileError := .system 2

/-- The operation is not permitted. -/
def denied : FileError := .system 13

/-- Something other than a directory lies on the way. -/
def notDirectory : FileError := .system 20

/-- An argument of a program is too long. -/
def argumentTooLong : FileError := .system 7

/-- The path leads to a directory. -/
def isDirectory : FileError := .system 21

/-- The device takes nothing more. -/
def deviceFull : FileError := .system 28

/-- A name on the path is too long. -/
def nameTooLong : FileError := .system 36

/-- The system's wordings of the error numbers from zero on, empty for a number that it does not
use. -/
def systemMessages : List String :=
  ["Success", "Operation not permitted", "No such file or directory", "No such process",
    "Interrupted system call", "Input/output error", "No such device or address",
    "Argument list too long", "Exec format error", "Bad file descriptor", "No child processes",
    "Resource temporarily unavailable", "Cannot allocate memory", "Permission denied",
    "Bad address", "Block device required", "Device or resource busy", "File exists",
    "Invalid cross-device link", "No such device", "Not a directory", "Is a directory",
    "Invalid argument", "Too many open files in system", "Too many open files",
    "Inappropriate ioctl for device", "Text file busy", "File too large",
    "No space left on device", "Illegal seek", "Read-only file system", "Too many links",
    "Broken pipe", "Numerical argument out of domain", "Numerical result out of range",
    "Resource deadlock avoided", "File name too long", "No locks available",
    "Function not implemented", "Directory not empty", "Too many levels of symbolic links", "",
    "No message of desired type", "Identifier removed", "Channel number out of range",
    "Level 2 not synchronized", "Level 3 halted", "Level 3 reset", "Link number out of range",
    "Protocol driver not attached", "No CSI structure available", "Level 2 halted",
    "Invalid exchange", "Invalid request descriptor", "Exchange full", "No anode",
    "Invalid request code", "Invalid slot", "", "Bad font file format", "Device not a stream",
    "No data available", "Timer expired", "Out of streams resources",
    "Machine is not on the network", "Package not installed", "Object is remote",
    "Link has been severed", "Advertise error", "Srmount error", "Communication error on send",
    "Protocol error", "Multihop attempted", "RFS specific error", "Bad message",
    "Value too large for defined data type", "Name not unique on network",
    "File descriptor in bad state", "Remote address changed",
    "Can not access a needed shared library", "Accessing a corrupted shared library",
    ".lib section in a.out corrupted", "Attempting to link in too many shared libraries",
    "Cannot exec a shared library directly", "Invalid or incomplete multibyte or wide character",
    "Interrupted system call should be restarted", "Streams pipe error", "Too many users",
    "Socket operation on non-socket", "Destination address required", "Message too long",
    "Protocol wrong type for socket", "Protocol not available", "Protocol not supported",
    "Socket type not supported", "Operation not supported", "Protocol family not supported",
    "Address family not supported by protocol", "Address already in use",
    "Cannot assign requested address", "Network is down", "Network is unreachable",
    "Network dropped connection on reset", "Software caused connection abort",
    "Connection reset by peer", "No buffer space available",
    "Transport endpoint is already connected", "Transport endpoint is not connected",
    "Cannot send after transport endpoint shutdown", "Too many references: cannot splice",
    "Connection timed out", "Connection refused", "Host is down", "No route to host",
    "Operation already in progress", "Operation now in progress", "Stale file handle",
    "Structure needs cleaning", "Not a XENIX named type file", "No XENIX semaphores available",
    "Is a named type file", "Remote I/O error", "Disk quota exceeded", "No medium found",
    "Wrong medium type", "Operation canceled", "Required key not available", "Key has expired",
    "Key has been revoked", "Key was rejected by service", "Owner died", "State not recoverable",
    "Operation not possible due to RF-kill", "Memory page has hardware error"]

/-- An error number in decimal digits, with a sign if it is negative. -/
def digits (code : Int32) : Text :=
  if code < 0 then '-' :: decimal code.toInt.natAbs else decimal code.toInt.natAbs

/-- The system's wording of an error number. -/
def systemMessage (code : Int32) : Text :=
  match if code < 0 then none else systemMessages[code.toNatClampNeg]? with
  | none | some "" => "Unknown error ".toList ++ digits code
  | some words => words.toList

/-- The wording of an error. -/
def message : FileError → Text
  | .system code => systemMessage code ++ " (os error ".toList ++ digits code ++ [')']
  | .notText => "stream did not contain valid UTF-8".toList
  | .zeroByte => "file name contained an unexpected NUL byte".toList
  | .zeroArgument => "nul byte found in provided data".toList

end FileError

end KernelIsa
