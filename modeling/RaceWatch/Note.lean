import RaceWatch.Error
import RaceWatch.Race

/-!
The running commentary of a detector. Each operation says what it did in a list of
notes. A note has a level, a fixed message and some named details.
-/

namespace RaceWatch

/-- How much a note matters. -/
inductive Level where
  | error
  | warn
  | debug
  | trace
deriving DecidableEq

def Level.text : Level → String
  | .error => "ERROR"
  | .warn => "WARN"
  | .debug => "DEBUG"
  | .trace => "TRACE"

/-- The way an access took through the epoch rule. The one on which the reads of a
location become shared has a note of its own. -/
inductive EpochPath where
  | readSameEpoch
  | readShared
  | readExclusive
  | writeSameEpoch
  | writeShared
  | writeExclusive
deriving DecidableEq

def EpochPath.text : EpochPath → String
  | .readSameEpoch => "read same epoch"
  | .readShared => "read shared"
  | .readExclusive => "read exclusive"
  | .writeSameEpoch => "write same epoch"
  | .writeShared => "write shared"
  | .writeExclusive => "write exclusive"

/-- One remark on what an operation did. -/
inductive Note where
  | noSlot (thread capacity : Nat)
  | clockOverflowed (thread clock : Nat)
  | epochOutside (epoch : Epoch) (capacity : Nat)
  | exitedThreadUsed (thread : Nat)
  | noSlotsLeft (capacity : Nat)
  | unfitCapacity (capacity : Nat)
  | foreignHandle (thread : Nat)
  | registered (thread : Nat)
  | exited (thread : Nat)
  | forked (parent child : Nat) (epoch : Epoch)
  | joined (parent child : Nat) (epoch : Epoch)
  | acquired (lock : Address) (thread : Nat)
  | released (lock : Address) (thread : Nat) (epoch : Epoch)
  | monitored (address : Address)
  | monitoredOnAccess (address : Address)
  | raced (event : RaceEvent)
  | suppressed (event : RaceEvent)
  | recorded (access : Access) (thread : Nat) (epoch : Epoch)
  | passed (path : EpochPath) (address : Address) (epoch : Epoch)
  | readsBecameShared (address : Address) (previous epoch : Epoch)
deriving DecidableEq

namespace Note

/-- A detail of a note. -/
inductive Detail where
  | number (value : Nat)
  | text (value : String)
deriving DecidableEq

def level : Note → Level
  | .noSlot .. | .clockOverflowed .. | .epochOutside .. | .exitedThreadUsed .. | .noSlotsLeft ..
  | .unfitCapacity .. | .foreignHandle .. => .error
  | .raced .. => .warn
  | .registered .. | .exited .. | .readsBecameShared .. => .debug
  | .forked .. | .joined .. | .acquired .. | .released .. | .monitored .. | .monitoredOnAccess ..
  | .suppressed .. | .recorded .. | .passed .. => .trace

def message : Note → String
  | .noSlot .. => "thread has no slot in the clock"
  | .clockOverflowed .. => "clock overflowed its epoch"
  | .epochOutside .. => "epoch names a thread outside the clock"
  | .exitedThreadUsed .. => "exited thread was used"
  | .noSlotsLeft .. => "no thread slots left"
  | .unfitCapacity .. => "thread capacity does not fit in an epoch"
  | .foreignHandle .. => "thread handle from another registry"
  | .registered .. => "registered thread"
  | .exited .. => "thread exited"
  | .forked .. => "fork"
  | .joined .. => "join"
  | .acquired .. => "acquire"
  | .released .. => "release"
  | .monitored .. => "monitoring new location"
  | .monitoredOnAccess .. => "monitoring new location on first access"
  | .raced .. => "data race detected"
  | .suppressed .. => "suppressed repeated race"
  | .recorded .. => "recorded access"
  | .passed path .. => path.text
  | .readsBecameShared .. => "read share"

def details : Note → List (String × Detail)
  | .noSlot thread capacity => [("thread_id", .number thread), ("max_threads", .number capacity)]
  | .clockOverflowed thread clock => [("thread_id", .number thread), ("clock", .number clock)]
  | .epochOutside epoch capacity =>
      [("epoch", .text epoch.text), ("max_threads", .number capacity)]
  | .exitedThreadUsed thread | .foreignHandle thread | .registered thread | .exited thread =>
      [("thread_id", .number thread)]
  | .noSlotsLeft capacity | .unfitCapacity capacity => [("max_threads", .number capacity)]
  | .forked parent child epoch | .joined parent child epoch =>
      [("parent", .number parent), ("child", .number child), ("epoch", .text epoch.text)]
  | .acquired lock thread => [("lock", .number lock), ("thread_id", .number thread)]
  | .released lock thread epoch =>
      [("lock", .number lock), ("thread_id", .number thread), ("epoch", .text epoch.text)]
  | .monitored address | .monitoredOnAccess address => [("address", .number address)]
  | .raced event =>
      [("address", .number event.address), ("kind", .text event.kind.text),
        ("thread", .number event.thread), ("prior_thread", .number event.priorThread)]
  | .suppressed event => [("event", .text event.text)]
  | .recorded access thread epoch =>
      [("address", .number access.address), ("thread_id", .number thread),
        ("kind", .text access.kind.text), ("epoch", .text epoch.text)]
  | .passed _ address epoch => [("address", .number address), ("epoch", .text epoch.text)]
  | .readsBecameShared address previous epoch =>
      [("address", .number address), ("previous", .text previous.text),
        ("epoch", .text epoch.text)]

end Note

/-- What is noted when the bookkeeping breaks. -/
def Fatal.note : Fatal → Note
  | .threadOutOfRange thread capacity => .noSlot thread capacity
  | .epochOutOfRange epoch capacity => .epochOutside epoch capacity
  | .clockOverflow thread clock => .clockOverflowed thread clock

/-- What is noted when an error arises. Misusing one thread as both sides of a
synchronization is handed back without a note. -/
def Error.notes : Error → List Note
  | .invalidCapacity capacity => [.unfitCapacity capacity]
  | .capacityExceeded capacity => [.noSlotsLeft capacity]
  | .threadExited thread => [.exitedThreadUsed thread]
  | .foreignThread thread => [.foreignHandle thread]
  | .selfSynchronization _ => []
  | .fatal cause => [cause.note]

end RaceWatch
