import StridedTensor.Error

/-!
# Transfers and streams

A transfer goes in one of four directions, of which only that within the host is supported. A stream is an ordered
queue of work on one device. The host works through every request at once, so there is never anything to wait for.
-/

namespace StridedTensor

inductive CopyDirection
  | hostToHost | hostToDevice | deviceToHost | deviceToDevice
  deriving DecidableEq, Repr

namespace CopyDirection

def between (source target : Device) : CopyDirection :=
  match source.isCpu, target.isCpu with
  | true, true => hostToHost
  | true, false => hostToDevice
  | false, true => deviceToHost
  | false, false => deviceToDevice

def name : CopyDirection → String
  | hostToHost => "host to host"
  | hostToDevice => "host to device"
  | deviceToHost => "device to host"
  | deviceToDevice => "device to device"

def isSupported (d : CopyDirection) : Bool := d == hostToHost

end CopyDirection

def Device.synchronize (d : Device) : Result Unit :=
  if d.isAvailable then .ok () else Result.reject (.device d)

structure Stream where
  id : Nat
  device : Device
  deriving DecidableEq

namespace Stream

def create (id : Nat) (device : Device) : Result Stream :=
  if device.isAvailable then .ok ⟨id, device⟩ else Result.reject (.device device)

def sync (s : Stream) : Result Unit := s.device.synchronize

end Stream

end StridedTensor
