import Adb.Bip.Buffer
import Adb.Lib.Run

namespace Adb.Bip

-- Where the writing thread stands in bip_buffer_write or bip_buffer_close.
inductive WriterAt where
  | idle
  | enter (src : Nat → UInt8) (len : Nat)
  | leftLock (src : Nat → UInt8) (len : Nat)
  | waiting (src : Nat → UInt8) (len : Nat)
  | woken (src : Nat → UInt8) (len : Nat)
  | setClosed
  | testRead
  | signalRead
  | testWrite
  | signalWrite
  | done

-- Where the reading thread stands in bip_buffer_read.
inductive ReaderAt where
  | idle
  | enter (len : Nat)
  | leftLock (len : Nat)
  | waiting (len : Nat)
  | woken (len : Nat)
deriving DecidableEq

-- What had been accepted and what had been handed out when a read reported an
-- error.
structure Failure where
  accepted : List UInt8
  returned : List UInt8
deriving DecidableEq

-- One direction of a socket pair with a thread at each end. The pair's other
-- buffer is closed by the same call of _fh_socketpair_close, and the reader of
-- this direction never looks at it.
structure Channel where
  bip : BipBuffer
  writer : WriterAt
  reader : ReaderAt
  accepted : List UInt8
  returned : List UInt8
  failures : List Failure

def channelInit : Channel where
  bip := bipBufferInit
  writer := .idle
  reader := .idle
  accepted := []
  returned := []
  failures := []

inductive Move where
  | callWrite (src : Nat → UInt8) (len : Int)
  | callClose
  | writer
  | callRead (len : Int)
  | reader

inductive NoMove where
  | disabled
  | waits
  | assertion
deriving DecidableEq

def writerStep (c : Channel) : Except NoMove Channel :=
  match c.writer with
  | .idle => .error .disabled
  | .enter src len =>
      if c.bip.canWrite then
        match writeLocked c.bip src len with
        | .returned count bip =>
            .ok { c with
              bip, writer := .idle, accepted := c.accepted ++ bytesAt src 0 count.toNat }
        | _ => .error .assertion
      else
        .ok { c with writer := .leftLock src len }
  -- the first test of closed, without the lock; EPIPE
  | .leftLock src len =>
      .ok { c with writer := if c.bip.closed then .idle else .waiting src len }
  -- WaitForSingleObject on evt_write
  | .waiting src len =>
      if c.bip.evtWrite then .ok { c with writer := .woken src len } else .error .waits
  -- the second test of closed, still without the lock
  | .woken src len => .ok { c with writer := if c.bip.closed then .idle else .enter src len }
  -- bip_buffer_close takes no lock at all
  | .setClosed => .ok { c with bip := { c.bip with closed := true }, writer := .testRead }
  | .testRead => .ok { c with writer := if c.bip.canRead then .testWrite else .signalRead }
  | .signalRead => .ok { c with bip := { c.bip with evtRead := true }, writer := .testWrite }
  | .testWrite => .ok { c with writer := if c.bip.canWrite then .done else .signalWrite }
  | .signalWrite => .ok { c with bip := { c.bip with evtWrite := true }, writer := .done }
  | .done => .error .disabled

def readerFails (c : Channel) : Channel :=
  { c with reader := .idle, failures := ⟨c.accepted, c.returned⟩ :: c.failures }

def readerStep (c : Channel) : Except NoMove Channel :=
  match c.reader with
  | .idle => .error .disabled
  | .enter len =>
      if c.bip.canRead then
        match readLocked c.bip len with
        | .returned dst bip => .ok { c with bip, reader := .idle, returned := c.returned ++ dst }
        | _ => .error .assertion
      else
        .ok { c with reader := .leftLock len }
  | .leftLock len =>
      if c.bip.closed then .ok (readerFails c) else .ok { c with reader := .waiting len }
  -- WaitForSingleObject on evt_read
  | .waiting len =>
      if c.bip.evtRead then .ok { c with reader := .woken len } else .error .waits
  | .woken len =>
      if c.bip.closed then .ok (readerFails c) else .ok { c with reader := .enter len }

def channelStep (c : Channel) : Move → Except NoMove Channel
  | .callWrite src len =>
      match c.writer with
      | .idle => .ok (if len ≤ 0 then c else { c with writer := .enter src len.toNat })
      | _ => .error .disabled
  | .callClose =>
      match c.writer with
      | .idle => .ok { c with writer := .setClosed }
      | _ => .error .disabled
  | .writer => writerStep c
  | .callRead len =>
      match c.reader with
      | .idle => .ok (if len ≤ 0 then c else { c with reader := .enter len.toNat })
      | _ => .error .disabled
  | .reader => readerStep c

end Adb.Bip
