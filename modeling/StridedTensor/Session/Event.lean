import StridedTensor.Session.Run

/-!
# Events

Everything that can happen to a session: besides the commands of the client, allocators are registered, the default
allocator changes, and contexts are built. `Session.Run` is what a session can have come to after any number of
events, and it remembers for every buffer the context in which it was made.
-/

namespace StridedTensor

inductive Event
  /-- There is a new allocator, with a ledger if it is `tracked`. -/
  | register (name : String) (provider : Provider) (tracked : Bool)
  | setDefault (id : AllocatorId)
  | build (options : ContextOptions)
  | command (k : Nat) (command : Command)

namespace Session

/-- The session after an event. There is none if the event names an allocator, a context or a handle that does not
exist. -/
def perform (s : Session) : Event → Option Session
  | .register name provider tracked =>
    let allocator : Allocator := ⟨name, provider, [], if tracked then some .empty else none⟩
    some { s with resources := (s.resources.register allocator).2 }
  | .setDefault id =>
    if id < s.resources.allocators.length then some { s with resources := (s.resources.setDefault id).2 } else none
  | .build options =>
    if options.allocator.all (· < s.resources.allocators.length) then some (s.build options) else none
  | .command k command => (s.step k command).map Prod.snd

def performAll (s : Session) (events : List Event) : Option Session := events.foldlM perform s

/-- The contexts in which buffers were made, after an event that led from `s` to `s'`: the new names belong to the
context of the command. -/
def homes (home : BufferId → Option Nat) (s s' : Session) : Event → BufferId → Option Nat
  | .command k _, id =>
    if s.resources.nextBuffer ≤ id ∧ id < s'.resources.nextBuffer then some k else home id
  | _, id => home id

/-- The session can come about. `home id` is the context in which the buffer `id` was made; none if there has been no
such buffer. -/
inductive Run : (BufferId → Option Nat) → Session → Prop
  | initial : Run (fun _ => none) Session.initial
  | perform {home : BufferId → Option Nat} {s s' : Session} {e : Event} (run : Run home s)
      (step : s.perform e = some s') : Run (homes home s s' e) s'

end Session

end StridedTensor
