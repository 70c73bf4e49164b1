import StridedTensor.Proofs.Replies

/-!
# Devices that errors name

An error that names a device as not available names that of a tensor which the command was given, or the one on which a
tensor was asked for, and that device is indeed not available (`Session.step_blames`). There is one exception. Where a
tensor on another device is asked for on the host, the transfer is not supported, and the error names the host, which is
available. A copy between the same two tensors blames the other device (`Session.fetch_blames`).
-/

namespace StridedTensor

namespace Session

variable {s s' : Session} {k : Nat} {c : Context} {command : Command}

/-- The devices of the tensors that a command names, and the one on which it asks for a tensor. -/
def devices (s : Session) (command : Command) : List Device :=
  (command.operands.filterMap s.tensor?).map Tensor.device ++ (s.target? command).toList

/-- The command asks for a tensor on the host that is on another device. -/
def Fetches (s : Session) (command : Command) : Prop :=
  ∃ out x t, command = .toDevice out x .cpu ∧ s.tensor? x = some t ∧ t.device.isAvailable = false

private theorem device_mem_devices {x : Handle} {t : Tensor} (hx : x ∈ command.operands) (ht : s.tensor? x = some t) :
    t.device ∈ s.devices command :=
  List.mem_append_left _ (List.mem_map_of_mem (List.mem_filterMap.2 ⟨x, hx, ht⟩))

private theorem target_mem_devices {device : Device} (h : s.target? command = some device) :
    device ∈ s.devices command :=
  List.mem_append_right _ (by rw [h]; simp)

/-- A tensor is not brought to the host, and the host is blamed for that. -/
private theorem step_of_fetches (hc : s.context? k = some c) (h : s.Fetches command) :
    s.step k command = some (Result.reject (.device .cpu), s) := by
  obtain ⟨out, x, t, rfl, ht, hd⟩ := h
  have hcpu : t.device.isCpu = false := hd
  have hmove : Workspace.toDevice ⟨c, s.resources⟩ t .cpu = (Result.reject (.device .cpu), ⟨c, s.resources⟩) := by
    unfold Workspace.toDevice
    rw [if_neg (by rintro hsame; simp [hsame, Device.isCpu] at hcpu), CopyDirection.between, hcpu]
    rfl
  unfold step
  simp only [hc, ht, Option.bind_eq_bind, Option.bind_some, Option.pure_def, hmove]
  exact congrArg some (congrArg (Prod.mk (Result.reject (.device .cpu))) (setWorkspace_self hc))

/-- Unless a tensor is asked for on the host that is elsewhere, only devices are blamed that are not available. -/
private theorem blames_of_not_fetches (hc : s.context? k = some c) (hf : ¬ s.Fetches command) {reply : Result Reply}
    (h : s.step k command = some (reply, s')) {e : TensorError} (he : Reply.reported? reply = some e) {d : Device}
    (hd : e.device? = some d) : d ∈ s.devices command ∧ d.isAvailable = false := by
  let P (e : TensorError) : Prop := ∀ d, e.device? = some d → d ∈ s.devices command ∧ d.isAvailable = false
  have hblamed {e : TensorError} {d : Device} (he : e.device? = some d) (hmem : d ∈ s.devices command)
      (hna : d.isAvailable = false) : P e := fun d' hd' => Option.some.inj (he.symm.trans hd') ▸ ⟨hmem, hna⟩
  have hoperands : ∀ x ∈ command.operands, ∀ t, s.tensor? x = some t → ∀ w,
      Workspace.Effects s.resources.nextBuffer ⟨c, s.resources⟩ w → w.context.Admits P t := fun x hx t ht w _ =>
    ⟨hblamed rfl (device_mem_devices hx ht), fun _ _ _ _ => nofun, fun _ _ _ _ => nofun⟩
  have htarget : ∀ device, s.target? command = some device → device.isAvailable = false → P (.alloc (.device device)) :=
    fun device hdevice => hblamed rfl (target_mem_devices hdevice)
  have hmove : ∀ out x t device, command = .toDevice out x device → s.tensor? x = some t →
      (CopyDirection.between t.device device).isSupported = false → P (.device device) := by
    rintro out x t device rfl ht hunsupported
    refine hblamed rfl (target_mem_devices rfl) ?_
    cases device with
    | gpu | npu => rfl
    | cpu =>
      -- the source would be on the host, and the transfer supported
      cases hsource : t.device.isAvailable with
      | false => exact absurd ⟨out, x, t, rfl, ht, hsource⟩ hf
      | true =>
        rw [CopyDirection.between, show t.device.isCpu = true from hsource] at hunsupported
        simp [Device.isCpu, CopyDirection.isSupported] at hunsupported
  rcases step_reports hc hoperands htarget hmove h e he with hordinary | hP
  · simp [TensorError.device?_of_isOrdinary hordinary] at hd
  · exact hP d hd

/-- An error that names a device as not available names that of a tensor which the command was given, or the one on
which it asks for a tensor. The device is not available, unless a tensor is asked for on the host that is on another
device: that always fails, and names the host. -/
theorem step_blames (hc : s.context? k = some c) (command : Command) :
    (∀ reply s' e d, s.step k command = some (reply, s') → Reply.reported? reply = some e → e.device? = some d →
      d ∈ s.devices command ∧ (d.isAvailable = true ↔ s.Fetches command)) ∧
    (s.Fetches command → s.step k command = some (Result.reject (.device .cpu), s)) := by
  refine ⟨fun reply s' e d h he hd => ?_, step_of_fetches hc⟩
  by_cases hf : s.Fetches command
  · rw [step_of_fetches hc hf, Option.some.injEq, Prod.mk.injEq] at h
    obtain ⟨rfl, rfl⟩ := h
    obtain rfl := Option.some.inj he
    obtain rfl := Option.some.inj hd
    refine ⟨?_, iff_of_true rfl hf⟩
    obtain ⟨out, x, t, rfl, -, -⟩ := hf
    exact target_mem_devices rfl
  · obtain ⟨hmem, hna⟩ := blames_of_not_fetches hc hf h he hd
    exact ⟨hmem, iff_of_false (by simp [hna]) hf⟩

/-! ### A tensor on another device -/

/-- One tensor is on the host, and another one, of the same shape and type, is not. -/
def hostAndElsewhere : List Event :=
  [.build {}, .command 0 (.null "n" [4] .u8 .gpu), .command 0 (.alloc "h" [4] .u8 .cpu)]

/-- The error that a command reports in the first context after some events. -/
def reportedAfter? (events : List Event) (command : Command) : Option TensorError :=
  (initial.performAll events).bind fun s => (s.step 0 command).bind fun outcome => Reply.reported? outcome.1

/-- A copy on the other device fails there, and so does a copy on the host, which is blamed. -/
theorem hostAndElsewhere_blames : ∃ s c, initial.performAll hostAndElsewhere = some s ∧ s.context? 0 = some c ∧
    reportedAfter? hostAndElsewhere (.contiguous "m" "n") = some (.alloc (.device .gpu)) ∧
    Device.gpu ∈ s.devices (.contiguous "m" "n") ∧ ¬ s.Fetches (.contiguous "m" "n") ∧
    s.Fetches (.toDevice "m" "n" .cpu) ∧
    s.step 0 (.toDevice "m" "n" .cpu) = some (Result.reject (.device .cpu), s) := by
  obtain ⟨s, hs⟩ : ∃ s, initial.performAll hostAndElsewhere = some s := Option.isSome_iff_exists.1 rfl
  have hfound : ((initial.performAll hostAndElsewhere).bind fun s => do
      let c ← s.context? 0
      let t ← s.tensor? "n"
      let (reply, s') ← s.step 0 (.contiguous "m" "n")
      return (t.device, Reply.reported? reply)) = some (.gpu, some (.alloc (.device .gpu))) := rfl
  simp only [hs, Option.bind_eq_bind, Option.bind_some, Option.bind_eq_some_iff, Option.pure_def, Option.some.injEq,
    Prod.mk.injEq] at hfound
  obtain ⟨c, hc, t, ht, ⟨reply, s'⟩, hstep, hd, he⟩ := hfound
  have hfetches : s.Fetches (.toDevice "m" "n" .cpu) := ⟨"m", "n", t, rfl, ht, by rw [hd]; rfl⟩
  obtain ⟨hmem, hna⟩ := (step_blames hc (.contiguous "m" "n")).1 reply s' _ .gpu hstep he rfl
  exact ⟨s, c, hs, hc, rfl, hmem, fun hf => absurd (hna.2 hf) (by decide), hfetches,
    (step_blames hc (.toDevice "m" "n" .cpu)).2 hfetches⟩

/-- The host is blamed for a tensor that is elsewhere. A copy of that tensor to one on the host blames the other
device. -/
theorem fetch_blames : reportedAfter? hostAndElsewhere (.toDevice "m" "n" .cpu) = some (.device .cpu) ∧
    Device.cpu.isAvailable = true ∧ reportedAfter? hostAndElsewhere (.copy "n" "h") = some (.device .gpu) := by
  exact ⟨rfl, rfl, rfl⟩

end Session

end StridedTensor
