import StridedTensor.Session.Command

/-!
# Sessions

A session is everything there is while a client works: the resources, the contexts, and the tensors that the client
holds under their names. A command is carried out in one of the contexts. It may fail and still leave traces, so
its result stands beside the session that it leaves behind.
-/

namespace StridedTensor

structure Session where
  resources : Resources
  /-- The contexts in the order in which they were built; none where one was dropped. -/
  contexts : List (Option Context)
  tensors : List (Handle × Tensor)

namespace Session

def initial : Session := ⟨.initial, [], []⟩

def build (s : Session) (options : ContextOptions) : Session :=
  { s with contexts := s.contexts ++ [some (Context.build options s.resources)] }

def tensor? (s : Session) (x : Handle) : Option Tensor := s.tensors.lookup x

def context? (s : Session) (k : Nat) : Option Context := s.contexts[k]?.join

/-- The session after the client has put a tensor under a handle, and let go of what was there. -/
def bind (s : Session) (x : Handle) (t : Tensor) : Session :=
  { s with tensors := (x, t) :: s.tensors.filter (·.1 != x) }

theorem tensor?_bind (s : Session) (x y : Handle) (t : Tensor) :
    (s.bind x t).tensor? y = if y = x then some t else s.tensor? y := by
  unfold tensor? bind
  rw [List.lookup_cons]
  by_cases h : y = x
  · simp [h]
  · rw [if_neg h]
    simp only [beq_eq_false_iff_ne.2 h]
    induction s.tensors with
    | nil => rfl
    | cons e es ih =>
      obtain ⟨z, u⟩ := e
      rw [List.filter_cons, List.lookup_cons]
      by_cases hz : z = x
      · subst hz
        simpa [beq_eq_false_iff_ne.2 h] using ih
      · simp only [bne_iff_ne.2 hz, if_true, List.lookup_cons, ih]

def setWorkspace (s : Session) (k : Nat) (w : Workspace) : Session :=
  { s with contexts := s.contexts.set k (some w.context), resources := w.resources }

def bindResult (s : Session) (k : Nat) (out : Handle) : Result Tensor × Workspace → Result Reply × Session
  | (.ok t, w) => (.ok (.tensor t), (s.setWorkspace k w).bind out t)
  | (.error e, w) => (.error e, s.setWorkspace k w)

/-- The outcome of a command that writes the tensor `t`: what it holds afterwards. -/
def readBack (s : Session) (k : Nat) (r : Resources) (t : Tensor) :
    Result Unit × Context → Result Reply × Session
  | (.ok _, c) =>
    let reply : Result Reply := match c.elements t with
      | .ok values => .ok (.wrote (.ok values))
      | .error (.error e) => .ok (.wrote (.error e))
      | .error (.fault f) => Result.halt f
    (reply, s.setWorkspace k ⟨c, r⟩)
  | (.error e, c) => (.error e, s.setWorkspace k ⟨c, r⟩)

/-- Carries out a command in context `k`. There is no outcome if the context was dropped, or if a handle is not
bound. -/
def step (s : Session) (k : Nat) (command : Command) : Option (Result Reply × Session) := do
  let c ← s.context? k
  let w : Workspace := ⟨c, s.resources⟩
  let reading (reply : Result Reply) : Result Reply × Session := (reply, s)
  match command with
  | .null out extents type device => return s.bindResult k out (Tensor.null extents type device, w)
  | .alloc out extents type device => return s.bindResult k out (w.alloc extents type device)
  | .ofList out type data extents device => return s.bindResult k out (w.ofList type data extents device)
  | .ofScalar out value device => return s.bindResult k out (w.ofScalar value device)
  | .wrap out address contents extents type device =>
    return s.bindResult k out (w.wrap address contents extents type device)
  | .contiguous out x => return s.bindResult k out (w.contiguous (← s.tensor? x))
  | .toDevice out x device => return s.bindResult k out (w.toDevice (← s.tensor? x) device)
  | .view out x op => return s.bindResult k out (op.apply (← s.tensor? x), w)
  | .set x index value =>
    let t ← s.tensor? x
    return s.readBack k w.resources t (c.set t index value)
  | .fill x value =>
    let t ← s.tensor? x
    return s.readBack k w.resources t (c.fill t value)
  | .copy source target =>
    let t ← s.tensor? target
    return s.readBack k w.resources t (c.copy (← s.tensor? source) t)
  | .kernel call =>
    let call ← call.operands? s.tensor?
    return s.readBack k w.resources call.output (c.launch call)
  | .release x =>
    let (t, w) := w.release (← s.tensor? x)
    return (.ok (.tensor t), (s.setWorkspace k w).bind x t)
  | .detach x =>
    let (result, w) := w.detach (← s.tensor? x)
    return (result.map fun _ => Reply.nothing, s.setWorkspace k w)
  | .drop => return (.ok .nothing, { s with contexts := s.contexts.set k none, resources := w.drop })
  | .info x => return reading (.ok (.info (← s.tensor? x)))
  | .context => return reading (.ok (.context (w.resources.allocator c.allocator).name c.strict c.alignment))
  | .canReshape x extents => return reading (Reply.flag <$> (← s.tensor? x).canReshape extents)
  | .canSlice x dim start stop => return reading (.ok (.flag ((← s.tensor? x).canSlice dim start stop)))
  | .elementOffset x index => return reading (Reply.number <$> (← s.tensor? x).elementOffset index)
  | .offsets x =>
    let t ← s.tensor? x
    return reading (do return .offsets (← t.numel) (← t.offsets))
  | .pair x y => return reading (.ok (.pair (← s.tensor? x) (← s.tensor? y)))
  | .isLive x => return reading (.ok (.flag (c.isLive (← s.tensor? x))))
  | .validate x => return reading ((fun _ => Reply.valid) <$> c.validate (← s.tensor? x))
  | .toList x type =>
    let t ← s.tensor? x
    let type := type.getD t.type
    return reading ((fun values => Reply.scalars (values.map (Scalar.mk type))) <$> c.toList t type)
  | .elements x => return reading (Reply.scalars <$> c.elements (← s.tensor? x))
  | .get x index => return reading (Reply.scalar <$> c.get (← s.tensor? x) index)
  | .toScalar x => return reading (Reply.scalar <$> c.toScalar (← s.tensor? x))
  | .reduceAll op x => return reading (Reply.scalar <$> c.reduceAll op (← s.tensor? x))
  | .buffer x => return reading (.ok (.buffer ((← s.tensor? x).buffer.bind c.arena.get?)))

def close (s : Session) : Resources :=
  s.contexts.foldl (fun r c =>
    match c with
    | some c => Workspace.drop ⟨c, r⟩
    | none => r) s.resources

end Session

end StridedTensor
