import StridedTensor.Context.Access
import StridedTensor.Stream

/-!
# Copies

Elements are copied between tensors of one shape and type, whatever their layouts. All of them are read before
the first one is written, so the two may overlap.
-/

namespace StridedTensor

namespace Context

def gather (c : Context) (t : Tensor) : Result (List (List UInt8)) := do
  let contents ← c.host t
  (← t.offsets).mapM fun offset => contents.element offset t.type.size

def scatter (c : Context) (t : Tensor) (elements : List (List UInt8)) : Result Unit × Context :=
  c.updateHost t fun contents => do
    let places := (← t.offsets).zip elements
    places.foldlM (fun contents (offset, bytes) => contents.setElement offset bytes) contents

/-- Why two tensors cannot be copied to one another, if so. A transfer that is not supported is blamed on the
device that is not the host, and on the source if neither is. -/
def checkCopy (source target : Tensor) : Result Unit :=
  if source.type ≠ target.type then Result.reject (.type source.type target.type)
  else if !source.sameShape target then Result.reject (.shape source.shape target.shape)
  else if !(CopyDirection.between source.device target.device).isSupported then
    Result.reject (.device (if source.device.isCpu then target.device else source.device))
  else .ok ()

def copy (c : Context) (source target : Tensor) : Result Unit × Context :=
  match checkCopy source target >>= fun _ => c.gather source with
  | .error e => (.error e, c)
  | .ok elements => c.scatter target elements

end Context

namespace Workspace

/-- A fresh row-major copy on the given device. If the copy fails, its memory is given back. -/
def duplicate (w : Workspace) (source : Tensor) (device : Device) : Result Tensor × Workspace :=
  match w.allocShape source.shape source.type device with
  | (.error e, w) => (.error e, w)
  | (.ok output, w) =>
    match w.context.copy source output with
    | (.ok _, context) => (.ok output, { w with context })
    | (.error e, context) => (.error e, (Workspace.release { w with context } output).2)

def contiguous (w : Workspace) (source : Tensor) : Result Tensor × Workspace := w.duplicate source source.device

/-- The elements on another device; on the same device a view. -/
def toDevice (w : Workspace) (source : Tensor) (device : Device) : Result Tensor × Workspace :=
  if source.device = device then (.ok source.view, w)
  else if !(CopyDirection.between source.device device).isSupported then (Result.reject (.device device), w)
  else w.duplicate source device

end Workspace

end StridedTensor
